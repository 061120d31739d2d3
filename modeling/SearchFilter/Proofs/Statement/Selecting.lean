import SearchFilter.Proofs.Predicate.Alignment
import SearchFilter.Proofs.Predicate.Meaning
import SearchFilter.Proofs.Statement.Tokens
import SearchFilter.Statement.Search
import SearchFilter.Statement.Select

/-!
# Reading search statements

A statement for SQLite is read with its values in their places. Main statement: the search of a
filter is read as a statement on the table of its entity whose condition is spelled by the items of
the filter's outline, each leaf standing for one comparison with values.
-/

namespace SearchFilter

open Sql

namespace Parameter

/-- The right sides that a parameter stands for. -/
def operands (p : Parameter) : List (Operand String) :=
  match p.values with
  | [] => [.null]
  | vs => vs.map .value

theorem alternatives?_boundTokens (p : Parameter) (rest : List (Token String)) :
    alternatives? (p.boundTokens ++ .right :: rest) = some (p.operands, rest) := by
  have hl (v : String) (vs : List String) :
      alternatives? (((v :: vs).map Token.placeholder).intersperse .comma ++ .right :: rest) =
        some ((v :: vs).map Operand.value, rest) := by
    induction vs generalizing v with
    | nil => rfl
    | cons w vs ih =>
      have := ih w
      simp only [List.map_cons] at this
      simp only [List.map_cons, List.intersperse_cons_cons, List.cons_append, alternatives?, this]
      rfl
  rw [boundTokens, operands]
  cases p.values with
  | nil => rfl
  | cons v vs => exact hl v vs

end Parameter

theorem steps?_walkTokens (key : String) (keys : List String) (rest : List (Token String)) :
    steps? (walkTokens (key :: keys) ++ rest) = (key :: keys, true, rest) := by
  induction keys generalizing key with
  | nil => rfl
  | cons next keys ih =>
    rw [walkTokens, List.cons_append, List.cons_append, steps?, ih next]
    rintro ⟨⟩

namespace Attribute

/-- The left side that an attribute is read as. -/
def operand (a : Attribute) : Operand String :=
  match a.keys with
  | [] => .column a.column
  | keys => .asText (.walk a.column keys true)

theorem leftOperand?_boundTokens {a : Attribute} (h : isReserved a.column = false)
    {rest : List (Token String)} (he : EndsOperand rest) :
    leftOperand? (a.boundTokens ++ rest) = some (a.operand, rest) := by
  rw [boundTokens, operand]
  cases a.keys with
  | nil =>
    have hl : rest.head? ≠ some .left := fun hl => (he _ hl).2.2 rfl
    exact (leftOperand?_word h hl).trans (by rw [columnOperand, steps?_of_endsOperand he])
  | cons key keys =>
    have hc (rest : List (Token String)) :
        columnOperand a.column (walkTokens (key :: keys) ++ rest) =
          (.walk a.column (key :: keys) true, rest) := by
      rw [columnOperand, steps?_walkTokens]
    simp only [List.cons_append, List.nil_append, List.append_assoc, leftOperand?, hc]

theorem exists_boundTokens_eq_cons {a : Attribute} (h : isReserved a.column = false) :
    ∃ word more, a.boundTokens = .word word :: more ∧ isReserved word = false := by
  rw [boundTokens]
  cases a.keys with
  | nil => exact ⟨_, _, rfl, h⟩
  | cons key keys => exact ⟨"CAST", _, rfl, by decide⟩

end Attribute

namespace Test

theorem endsOperand_boundTokens (t : Test) (rest : List (Token String)) :
    EndsOperand (t.boundTokens ++ rest) := by
  cases t with
  | equal v => simp [EndsOperand, boundTokens]
  | compare op condition => cases op <;> simp [EndsOperand, boundTokens, Operator.signOf]

theorem exists_value_eq_text {op : Operator} {condition : Condition}
    {value : Parameter} (h : (compare op condition).parameter = .ok value) (ho : op ≠ .oneOf) :
    ∃ s, (compare op condition).value = .text s := by
  rw [value_eq h]
  cases value with
  | text s => exact ⟨s, rfl⟩
  | list items => exact absurd ((Operator.parameter_isList_iff h).mp ⟨items, rfl⟩) ho

end Test

namespace Leaf

/-- The comparison that a leaf is read as with its values. -/
def bound (l : Leaf) : Comparison String where
  left := l.left.operand
  relation :=
    match l.test.operator? with
    | none => .sign .equal
    | some op => op.relation
  right := l.test.value.operands

theorem comparison?_boundTokens {l : Leaf} (h : isReserved l.left.column = false)
    {ps : List Parameter} (hp : l.parameters = .ok ps) (rest : List (Token String)) :
    comparison? (l.boundTokens ++ rest) = some (l.bound, rest) := by
  obtain ⟨value, hv, -⟩ := parameters_eq_ok_iff.mp hp
  have hl : leftOperand? (l.boundTokens ++ rest) =
      some (l.left.operand, l.test.boundTokens ++ rest) := by
    rw [boundTokens, List.append_assoc]
    exact Attribute.leftOperand?_boundTokens h (l.test.endsOperand_boundTokens rest)
  rw [comparison?, hl, bound]
  cases ht : l.test with
  | equal v => rfl
  | compare op condition =>
    by_cases ho : op = .oneOf
    · subst ho
      have ha := (Test.value (.compare .oneOf condition)).alternatives?_boundTokens rest
      simp [Test.boundTokens, Operator.signOf, ha, Test.operator?, Operator.relation]
    · rw [ht] at hv
      obtain ⟨s, hs⟩ := Test.exists_value_eq_text hv ho
      rw [Test.boundTokens, hs]
      cases op with
      | oneOf => exact absurd rfl ho
      | _ => rfl

theorem cutItems_boundTokens {l : Leaf} (h : isReserved l.left.column = false)
    {ps : List Parameter} (hp : l.parameters = .ok ps) (rest : List (Token String)) :
    cutItems 0 (l.boundTokens ++ rest) = (cutItems 0 rest).map (.comparison l.bound :: ·) := by
  have hc := comparison?_boundTokens h hp rest
  obtain ⟨word, more, hw, hr⟩ := Attribute.exists_boundTokens_eq_cons h
  rw [boundTokens, hw, List.cons_append] at hc ⊢
  exact cutItems_comparison hr hc

end Leaf

namespace Segment

theorem cutItems_boundTokens {s : Segment} (h : ∀ l ∈ s.leaf?, isReserved l.left.column = false)
    (hp : ∀ l ∈ s.leaf?, ∃ ps, l.parameters = .ok ps) (rest : List (Token String)) :
    cutItems 0 (s.boundTokens ++ rest) = (cutItems 0 rest).map (s.itemOf Leaf.bound :: ·) := by
  cases s with
  | opening => rfl
  | closing => rfl
  | joint c => cases c <;> rfl
  | leaf l =>
    obtain ⟨ps, hps⟩ := hp l rfl
    exact Leaf.cutItems_boundTokens (h l rfl) hps rest

end Segment

section Capitals

/-- Whether tokens stay as they are when keywords are put in capitals. -/
def KeepCase (ts : List (Token String)) : Prop := ∀ t ∈ ts, capitalize t.erase = t.erase

theorem KeepCase.map_capitalize {ts : List (Token String)} (h : KeepCase ts) :
    (ts.map Token.erase).map capitalize = ts.map Token.erase := by
  rw [List.map_map]
  exact List.map_congr_left h

theorem KeepCase.append {ts us : List (Token String)} (ht : KeepCase ts) (hu : KeepCase us) :
    KeepCase (ts ++ us) := by
  intro t hm
  rcases List.mem_append.mp hm with hm | hm
  · exact ht t hm
  · exact hu t hm

theorem Parameter.keepCase_boundTokens (p : Parameter) : KeepCase p.boundTokens := by
  have hl (v : String) (vs : List String) :
      KeepCase (((v :: vs).map Token.placeholder).intersperse .comma) := by
    induction vs generalizing v with
    | nil => simp [KeepCase, capitalize]
    | cons w vs ih =>
      have := ih w
      rw [List.map_cons, List.map_cons, List.intersperse_cons_cons, KeepCase,
        List.forall_mem_cons, List.forall_mem_cons]
      exact ⟨rfl, rfl, this⟩
  rw [boundTokens]
  cases p.values with
  | nil => simp only [KeepCase, List.forall_mem_singleton]; decide
  | cons v vs => exact hl v vs

theorem keepCase_walkTokens (keys : List String) : KeepCase (walkTokens keys) := by
  fun_induction walkTokens keys with
  | case1 => simp [KeepCase]
  | case2 key => simp [KeepCase, capitalize]
  | case3 key keys _ ih =>
    simp only [KeepCase, List.forall_mem_cons]
    exact ⟨rfl, rfl, ih⟩

theorem Attribute.keepCase_boundTokens {a : Attribute} (h : upper a.column ∉ keywords) :
    KeepCase a.boundTokens := by
  have hc : capitalize (.word a.column) = .word a.column := by rw [capitalize, if_neg h]
  rw [boundTokens]
  cases a.keys with
  | nil => simpa [KeepCase] using hc
  | cons key keys =>
    have hcast : capitalize (.word "CAST") = .word "CAST" := by decide
    have has : capitalize (.word "AS") = .word "AS" := by decide
    have htext : capitalize (.word "TEXT") = .word "TEXT" := by decide
    refine .append (.append ?_ (keepCase_walkTokens _)) ?_
    · simp only [KeepCase, List.forall_mem_cons]
      exact ⟨hcast, rfl, hc, by simp⟩
    · simp only [KeepCase, List.forall_mem_cons]
      exact ⟨has, htext, rfl, by simp⟩

theorem Test.keepCase_boundTokens (t : Test) : KeepCase t.boundTokens := by
  cases t with
  | equal v => simp [KeepCase, boundTokens, capitalize]
  | compare op condition =>
    have ho : capitalize op.signOf.erase = op.signOf.erase := by cases op <;> decide
    refine .append (.append ?_ (Parameter.keepCase_boundTokens _)) ?_
    · simp only [KeepCase, List.forall_mem_cons]
      exact ⟨ho, rfl, by simp⟩
    · simp [KeepCase, capitalize]

theorem Segment.keepCase_boundTokens {s : Segment}
    (h : ∀ l ∈ s.leaf?, upper l.left.column ∉ keywords) : KeepCase s.boundTokens := by
  cases s with
  | leaf l =>
    exact .append (Attribute.keepCase_boundTokens (h l rfl)) l.test.keepCase_boundTokens
  | joint c => cases c <;> (simp only [KeepCase, boundTokens, List.forall_mem_singleton]; decide)
  | _ => simp [KeepCase, boundTokens, capitalize]

end Capitals

namespace Entity

/-- The tokens of a statement that selects by a condition. -/
def selectTokens (e : Entity) (ts : List (Token String)) : List (Token String) :=
  [.word "SELECT", .word "id", .word "FROM", .word e.table, .word "WHERE"] ++ ts ++
    [.word "ORDER", .word "BY", .word "id"]

theorem isWord_table (e : Entity) : Text.IsWord e.table := by
  cases e <;> decide

theorem keepCase_selectTokens (e : Entity) {ts : List (Token String)} (h : KeepCase ts) :
    KeepCase (e.selectTokens ts) := by
  refine .append (.append ?_ h) ?_
  · cases e <;> (simp only [KeepCase, List.forall_mem_cons]; decide)
  · simp only [KeepCase, List.forall_mem_cons]
    decide

theorem tokens?_selectIds (e : Entity) {condition : String} {ts : List (Token String)}
    (h : ∀ rest, cutTokens 0 (condition.toList ++ rest) =
      (cutTokens 0 rest).map (ts.map Token.erase ++ ·)) :
    tokens? (e.selectIds condition).toList = some ((e.selectTokens ts).map Token.erase) := by
  have horder : cutTokens 0 " ORDER BY id".toList =
      some [.word "ORDER", .word "BY", .word "id"] := by
    decide +kernel
  have hs : (e.selectIds condition).toList = "SELECT".toList ++ ' ' :: ("id".toList ++ ' ' ::
      ("FROM".toList ++ ' ' :: (e.table.toList ++ ' ' :: ("WHERE".toList ++ ' ' ::
        (condition.toList ++ " ORDER BY id".toList))))) := by
    unfold selectIds
    simp
  rw [tokens?, hs, cutTokens_word_blank (by decide), cutTokens_word_blank (by decide),
    cutTokens_word_blank (by decide), cutTokens_word_blank e.isWord_table,
    cutTokens_word_blank (by decide), h, horder]
  simp [selectTokens]

theorem dropOrder?_append (ts : List (Token String)) :
    dropOrder? (ts ++ [.word "ORDER", .word "BY", .word "id"]) = some ts := by
  have hi : Text.SameFolded "id" "id" := rfl
  simp [dropOrder?, hi]

/-- The values are put in their places and the condition is read. -/
theorem read?_selectIds (e : Entity) {condition : String} {ts : List (Token String)}
    {c : Sql.Condition String}
    (h : ∀ rest, cutTokens 0 (condition.toList ++ rest) =
      (cutTokens 0 rest).map (ts.map Token.erase ++ ·))
    (hk : KeepCase ts) (hc : Condition.ofTokens? ts = some c) :
    Statement.read? ⟨e.selectIds condition, ts.filterMap Token.value?⟩ = some ⟨e.table, c⟩ := by
  have hv : (e.selectTokens ts).filterMap Token.value? = ts.filterMap Token.value? := by
    simp [selectTokens, List.filterMap_cons]
  have hf : Token.fill (((e.selectTokens ts).map Token.erase).map capitalize)
      (ts.filterMap Token.value?) = some (e.selectTokens ts) := by
    rw [(e.keepCase_selectTokens hk).map_capitalize, ← hv, Token.fill_map_erase]
  have hi : Text.SameFolded "id" "id" := rfl
  unfold Statement.read?
  rw [e.tokens?_selectIds h, Option.bind_eq_bind, Option.bind_some, hf, Option.bind_eq_bind,
    Option.bind_some]
  simp [selectTokens, hi, dropOrder?_append, hc]

theorem upper_notMem_keywords (e : Entity) :
    ∀ field ∈ e.allowlist.fields, upper field ∉ keywords := by
  cases e <;> decide

end Entity

/-- The search of a filter is read as a statement whose condition the items of its outline
spell. -/
theorem Filter.exists_searchQuery {e : Entity} {f : Filter} {p : Predicate}
    (h : ∀ l ∈ f.leaves, e.allowlist.Allows l.left.column) (hp : f.compile = .ok p) :
    ∃ q, e.searchQuery .sqlite p = .ok q ∧ ∀ c,
      Disjunction (f.outline.map (Segment.itemOf Leaf.bound)) c →
        Statement.read? q = some ⟨e.table, c⟩ := by
  have hn : ∀ l ∈ f.leaves, IsColumnName l.left.column := by
    intro l hl
    exact e.isPlain_allowlist _ (h l hl)
  have hb := bind_of_compile e.allowlist hn hp
  have hps := (compile_eq_ok_iff.mp hp).2
  rw [← f.leaves_outline] at h hn hps
  refine ⟨_, by rw [Entity.searchQuery, hb]; rfl, ?_⟩
  intro c hc
  have hitems : cutItems 0 (f.outline.flatMap Segment.boundTokens) =
      some (f.outline.map (Segment.itemOf Leaf.bound)) := by
    apply Segment.cutItems_flatMap
    intro s hs
    apply Segment.cutItems_boundTokens
    · exact fun l hl => isReserved_of_isColumnName (hn l (Segment.mem_leaves.mpr ⟨s, hs, hl⟩))
    · exact fun l hl => Leaf.exists_parameters_of_mem hps (Segment.mem_leaves.mpr ⟨s, hs, hl⟩)
  have hkeep : KeepCase (f.outline.flatMap Segment.boundTokens) := by
    intro t ht
    obtain ⟨s, hs, hts⟩ := List.mem_flatMap.mp ht
    refine Segment.keepCase_boundTokens ?_ t hts
    exact fun l hl => e.upper_notMem_keywords _ (h l (Segment.mem_leaves.mpr ⟨s, hs, hl⟩))
  refine e.read?_selectIds (Segment.cutTokens_writtenAll fun l hl => (hn l hl).1) hkeep ?_
  rw [Condition.ofTokens?, hitems]
  exact readFactor_eq_some_iff.mpr hc

end SearchFilter
