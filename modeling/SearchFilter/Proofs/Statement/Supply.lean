import SearchFilter.Proofs.Predicate.Compilation
import SearchFilter.Statement.Search

/-!
# The supply of parameters

Every placeholder of a text is bound, those of walks included, and each takes the next parameter.
Main statements: a predicate with as many placeholders as parameters is bound, and the texts bound
are those of its parameters in their order; the predicate of a filter has as many of both as long
as no column has a placeholder in its name.
-/

namespace SearchFilter

theorem Attribute.count_tail (hops : Nat) : (tail hops).count '?' = hops + 1 := by
  induction hops with
  | zero => rfl
  | succ hops ih => simp [tail, ih]

theorem Parameter.flatMap_values_text (keys : List String) :
    (keys.map text).flatMap values = keys := by
  rw [List.flatMap_map]
  exact List.flatMap_singleton' keys

namespace Piece

/-- The number of parameters that a piece takes. -/
def takes : Piece → Nat
  | placeholder => 1
  | walk _ hops => hops + 1
  | word _ | other _ => 0

theorem count_takeWhile_continuesWord (rest : List Char) :
    (rest.takeWhile Text.continuesWord).count '?' = 0 := by
  rw [List.count_eq_zero]
  intro h
  have : Text.continuesWord '?' = true := List.all_eq_true.mp List.all_takeWhile _ h
  exact absurd this (by decide)

/-- A piece takes a parameter for each placeholder in its text. -/
theorem count_text_of_mem_cut {skip : Nat} {cs : List Char} {piece : Piece}
    (h : piece ∈ cut skip cs) : piece.text.count '?' = piece.takes := by
  have hw {c : Char} (hc : ¬ c = '?') (rest : List Char) :
      (c :: rest.takeWhile Text.continuesWord).count '?' = 0 := by
    rw [List.count_cons_of_ne hc, count_takeWhile_continuesWord]
  fun_induction cut skip cs with
  | case1 => cases h
  | case2 skip c rest ih => exact ih h
  | case3 rest ih =>
    rcases List.mem_cons.mp h with rfl | h
    · rfl
    · exact ih h
  | case4 c rest hc hs more hops r ht ih =>
    rcases List.mem_cons.mp h with rfl | h
    · rw [text, takes, List.count_append, hw hc, Attribute.count_tail, Nat.zero_add]
    · exact ih h
  | case5 c rest hc hs more ht ih =>
    rcases List.mem_cons.mp h with rfl | h
    · exact hw hc rest
    · exact ih h
  | case6 c rest hc hs ih =>
    rcases List.mem_cons.mp h with rfl | h
    · rw [text, takes, List.count_cons_of_ne hc, List.count_nil]
    · exact ih h

end Piece

namespace Binding

variable (backend : Backend) (columns : Allowlist)

/-- From the first to the second, the next `n` parameters were bound. -/
def Consumes (n : Nat) (p q : Progress) : Prop :=
  ∃ taken, taken.length = n ∧ p.supply = taken ++ q.supply ∧
    q.binds.toList = p.binds.toList ++ taken.flatMap Parameter.values

namespace Consumes

theorem refl (p : Progress) : Consumes 0 p p := ⟨[], rfl, rfl, by simp⟩

theorem trans {m n : Nat} {p q r : Progress} (hm : Consumes m p q) (hn : Consumes n q r) :
    Consumes (m + n) p r := by
  obtain ⟨a, ha, hp, hb⟩ := hm
  obtain ⟨b, hl, hq, hc⟩ := hn
  refine ⟨a ++ b, ?_, ?_, ?_⟩
  · rw [List.length_append, ha, hl]
  · rw [hp, hq, List.append_assoc]
  · rw [hc, hb, List.flatMap_append, List.append_assoc]

theorem length_supply {n : Nat} {p q : Progress} (h : Consumes n p q) :
    p.supply.length = n + q.supply.length := by
  obtain ⟨taken, hl, hs, -⟩ := h
  rw [hs, List.length_append, hl]

end Consumes

theorem exists_take {p : Progress} (type : ColumnType) (h : 1 ≤ p.supply.length) :
    ∃ s q, p.take backend type = .ok (s, q) ∧ Consumes 1 p q := by
  unfold Progress.take
  cases hs : p.supply with
  | nil =>
    rw [hs] at h
    cases h
  | cons parameter supply => exact ⟨_, _, rfl, [parameter], rfl, hs, by simp⟩

theorem exists_takeSteps {hops : Nat} {p : Progress} (written : String)
    (h : hops + 1 ≤ p.supply.length) :
    ∃ s q, p.takeSteps backend hops written = .ok (s, q) ∧ Consumes (hops + 1) p q := by
  induction hops generalizing p written with
  | zero =>
    obtain ⟨s, q, ht, hc⟩ := exists_take backend .text h
    refine ⟨written ++ " ->> " ++ s, q, ?_, hc⟩
    rw [Progress.takeSteps, ht]
    rfl
  | succ hops ih =>
    have hp : 1 ≤ p.supply.length := by omega
    obtain ⟨s, q, ht, hc⟩ := exists_take backend .text hp
    have hl := hc.length_supply
    obtain ⟨t, r, hr, hd⟩ := ih (written ++ " -> " ++ s) (by omega : hops + 1 ≤ q.supply.length)
    refine ⟨t, r, ?_, ?_⟩
    · rw [Progress.takeSteps, ht]
      exact hr
    · rw [Nat.add_comm]
      exact hc.trans hd

theorem exists_step {p : Progress} {piece : Piece} (h : piece.takes ≤ p.supply.length) :
    ∃ q, step backend columns p piece = .ok q ∧ Consumes piece.takes p q := by
  cases piece with
  | placeholder =>
    obtain ⟨s, q, ht, hc⟩ := exists_take backend (p.pending.getD .text) h
    refine ⟨{ q with pending := none, sql := q.sql ++ s }, ?_, hc⟩
    rw [step, ht]
    rfl
  | word letters => exact ⟨_, rfl, .refl p⟩
  | walk column hops =>
    obtain ⟨s, q, ht, hc⟩ := exists_takeSteps backend (String.ofList column) h
    refine ⟨{ q with pending := none, sql := q.sql ++ backend.jsonText s }, ?_, hc⟩
    rw [step, ht]
    rfl
  | other c => exact ⟨_, rfl, .refl p⟩

/-- Steps bind a parameter for each placeholder in the text of their pieces. -/
theorem exists_steps {p : Progress} {pieces : List Piece}
    (ht : ∀ piece ∈ pieces, piece.text.count '?' = piece.takes)
    (h : (pieces.flatMap Piece.text).count '?' ≤ p.supply.length) :
    ∃ q, pieces.foldlM (step backend columns) p = .ok q ∧
      Consumes ((pieces.flatMap Piece.text).count '?') p q := by
  induction pieces generalizing p with
  | nil => exact ⟨p, rfl, .refl p⟩
  | cons piece pieces ih =>
    rw [List.flatMap_cons, List.count_append, ht piece List.mem_cons_self] at h ⊢
    obtain ⟨q, hs, hc⟩ := exists_step backend columns (by omega : piece.takes ≤ p.supply.length)
    have hl := hc.length_supply
    have hr : (pieces.flatMap Piece.text).count '?' ≤ q.supply.length := by omega
    obtain ⟨r, hr, hd⟩ := ih (fun other ho => ht other (List.mem_cons_of_mem _ ho)) hr
    refine ⟨r, ?_, hc.trans hd⟩
    rw [List.foldlM_cons, hs]
    exact hr

end Binding

namespace Predicate

theorem exists_bind {p : Predicate} (h : p.placeholderCount = p.parameters.length)
    (backend : Backend) (columns : Allowlist) :
    ∃ q, p.bind backend columns = .ok q ∧ q.binds = p.parameters.flatMap Parameter.values := by
  have hs : ((Piece.ofText p.text).flatMap Piece.text).count '?' = p.parameters.length := by
    rw [Piece.ofText, Piece.flatMap_text_cut, ← h, placeholderCount, placeholders]
  have hc : ∀ piece ∈ Piece.ofText p.text, piece.text.count '?' = piece.takes := by
    intro piece hp
    exact Piece.count_text_of_mem_cut hp
  obtain ⟨done, hd, taken, hl, ht, hb⟩ := Binding.exists_steps backend columns
    (p := ⟨none, p.parameters, #[], ""⟩) hc (Nat.le_of_eq hs)
  have hr : done.supply = [] := by
    have := congrArg List.length ht
    rw [List.length_append, hl, hs] at this
    exact List.eq_nil_of_length_eq_zero (by simpa using this)
  refine ⟨⟨done.sql, done.binds.toList⟩, ?_, ?_⟩
  · rw [Predicate.bind, if_neg (not_not_intro h), hd]
    rfl
  · rw [hr, List.append_nil] at ht
    rw [hb, ← ht]
    rfl

theorem bind_eq_ok_iff_count {p : Predicate} {backend : Backend} {columns : Allowlist} :
    (∃ q, p.bind backend columns = .ok q) ↔ p.placeholderCount = p.parameters.length := by
  constructor
  · rintro ⟨q, hq⟩
    by_cases h : p.placeholderCount = p.parameters.length
    · exact h
    · rw [Predicate.bind, if_pos h] at hq
      cases hq
  · intro h
    obtain ⟨q, hq, -⟩ := exists_bind h backend columns
    exact ⟨q, hq⟩

theorem binds_of_bind_eq_ok {p : Predicate} {backend : Backend} {columns : Allowlist}
    {q : BoundQuery} (h : p.bind backend columns = .ok q) :
    q.binds = p.parameters.flatMap Parameter.values := by
  obtain ⟨r, hr, hb⟩ := exists_bind (bind_eq_ok_iff_count.mp ⟨q, h⟩) backend columns
  rw [h] at hr
  cases hr
  exact hb

end Predicate

namespace Test

theorem count_comparison (t : Test) : t.comparison.toList.count '?' = 1 := by
  cases t with
  | equal v => simp [comparison]
  | compare op c => cases op <;> simp [comparison, Operator.symbol]

end Test

namespace Leaf

theorem count_text {l : Leaf} (h : '?' ∉ l.left.column.toList) :
    l.text.toList.count '?' = l.left.keys.length + 1 := by
  have hc : l.left.column.toList.count '?' = 0 := List.count_eq_zero.mpr h
  rw [text, String.toList_append, List.count_append, Test.count_comparison, Attribute.expr,
    Attribute.exprList, String.toList_ofList]
  cases l.left.keys with
  | nil => rw [hc]; rfl
  | cons key keys => rw [List.count_append, hc, Attribute.count_tail]; simp

theorem length_parameters {l : Leaf} {ps : List Parameter} (h : l.parameters = .ok ps) :
    ps.length = l.left.keys.length + 1 := by
  obtain ⟨value, -, rfl⟩ := parameters_eq_ok_iff.mp h
  simp [Attribute.parameters]

end Leaf

theorem Segment.count_text_of_none {s : Segment} (h : s.leaf? = none) :
    s.text.toList.count '?' = 0 := by
  cases s with
  | opening => decide
  | closing => decide
  | joint c => cases c <;> decide
  | leaf l => cases h

/-- A row has a placeholder for each parameter of its leaves. -/
theorem Segment.count_textAll {segments : List Segment} {ps : List Parameter}
    (h : ∀ l ∈ leaves segments, '?' ∉ l.left.column.toList)
    (hp : Leaf.parametersAll (leaves segments) = .ok ps) :
    (textAll segments).toList.count '?' = ps.length := by
  refine parameters_induction (P := fun row ps => (textAll row).toList.count '?' = ps.length)
    rfl ?_ ?_ h hp
  · intro s rest ps hs ih
    rw [textAll_cons, String.toList_append, List.count_append, count_text_of_none hs, ih,
      Nat.zero_add]
  · intro l rest first others hl hf ih
    rw [textAll_cons, String.toList_append, List.count_append, text, Leaf.count_text hl,
      List.length_append, Leaf.length_parameters hf, ih]

theorem Filter.placeholderCount_of_compile {f : Filter} {p : Predicate}
    (h : ∀ l ∈ f.leaves, '?' ∉ l.left.column.toList) (hp : f.compile = .ok p) :
    p.placeholderCount = p.parameters.length := by
  obtain ⟨ht, hps⟩ := compile_eq_ok_iff.mp hp
  rw [← f.leaves_outline] at h hps
  rw [Predicate.placeholderCount, placeholders, ht]
  exact Segment.count_textAll h hps

end SearchFilter
