import Mathlib.Tactic.Ring
import SearchFilter.Proofs.Filter.Fans
import SearchFilter.Proofs.Predicate.Collecting
import SearchFilter.Proofs.Predicate.Fragments
import SearchFilter.Proofs.Statement.Casts
import SearchFilter.Proofs.Statement.Rendering

/-!
# The number of placeholders

Keys are bound anew for each comparison below them, while the text has them once. Main statements:
a statement has as many placeholders as texts are bound, and at most 65535 of them as long as the
keys below columns are at most five or the text is short; with six keys, or in a short text with
many keys, a filter within the limit can have more.
-/

namespace SearchFilter

theorem Backend.count_typedPlaceholder_postgres (type : ColumnType) (k : Nat) :
    (postgres.typedPlaceholder k type).toList.count '$' = 1 := by
  have hdigits : (toString k).toList.count '$' = 0 := by
    rw [List.count_eq_zero]
    intro h
    have hk : (toString k).toList = Nat.toDigits 10 k := String.toList_ofList
    rw [hk] at h
    exact absurd (Nat.isDigit_of_mem_toDigits (by decide) (by decide) h) (by decide)
  have hcast : type.castSuffix.toList.count '$' = 0 := by cases type <;> decide
  have hsign : "$".toList.count '$' = 1 := by decide
  rw [typedPlaceholder_postgres, String.toList_append, String.toList_append, List.count_append,
    List.count_append, hsign, hdigits, hcast]

/-- A statement for PostgreSQL has one dollar sign for each value that is bound, if its predicate
has none. -/
theorem Predicate.count_bind_postgres {p : Predicate} {columns : Allowlist} {q : BoundQuery}
    (h : p.bind .postgres columns = .ok q) (hp : '$' ∉ p.text.toList) :
    q.sql.toList.count '$' = q.binds.length := by
  obtain ⟨types, runs, hl, -, hsql, hruns⟩ := exists_runs_of_bind h
  have hcount : placeholders p.text.toList =
      (Binding.renderAll .postgres 0 types p.parameters).length := by
    rw [Binding.length_renderAll _ hl, ← hl]
    exact bind_eq_ok_iff_count.mp ⟨q, h⟩
  have htext : (p.text.toList.filter (· ≠ '?')).count '$' = 0 := by
    rw [List.count_eq_zero]
    exact fun hm => hp (List.mem_filter.mp hm).1
  rw [hsql, Run.written_postgres, hruns, count_substitute '$' hcount, htext, Nat.zero_add,
    Binding.renderAll_eq_mapIdx_written _ hl, binds_of_bind_eq_ok h]
  exact Parameter.sum_count_written (by decide) (by decide)
    (fun i k => Backend.count_typedPlaceholder_postgres (types.getD i .text) k) _ _

theorem Entity.count_selectIds (e : Entity) (condition : String) :
    (e.selectIds condition).toList.count '$' = condition.toList.count '$' := by
  have hframe (a b c d : String) (ha : a.toList.count '$' = 0) (hb : b.toList.count '$' = 0)
      (hc : c.toList.count '$' = 0) (hd : d.toList.count '$' = 0) :
      (a ++ b ++ c ++ condition ++ d).toList.count '$' = condition.toList.count '$' := by
    simp only [String.toList_append, List.count_append, ha, hb, hc, hd, Nat.zero_add, Nat.add_zero]
  exact hframe _ _ _ _ (by decide) (by cases e <;> decide) (by decide) (by decide)

theorem Filter.not_mem_text_of_compile {f : Filter} {p : Predicate} (hp : f.compile = .ok p)
    {c : Char} (hfixed : ∀ t ∈ Predicate.fixedFragments, c ∉ t.toList)
    (h : ∀ l ∈ f.leaves, c ∉ l.left.column.toList) : c ∉ p.text.toList := by
  rw [(compile_eq_ok_iff.mp hp).1, Segment.textAll_eq_join, String.toList_join, List.mem_flatMap]
  rintro ⟨t, ht, hc⟩
  obtain ⟨s, hs, ht⟩ := List.mem_flatMap.mp ht
  rcases Segment.eq_column_or_mem_fixedFragments ht with ⟨l, hl, rfl⟩ | ht
  · rw [← f.leaves_outline] at h
    exact h l (Segment.mem_leaves.mpr ⟨s, hs, hl⟩) hc
  · exact hfixed t ht hc

namespace Leaf

theorem length_values_of_parametersAll {ls : List Leaf} {ps : List Parameter}
    (h : parametersAll ls = .ok ps) :
    (ps.flatMap Parameter.values).length = (ls.map bindCount).sum := by
  induction ls generalizing ps with
  | nil =>
    cases h
    rfl
  | cons l rest ih =>
    obtain ⟨first, others, hf, ho, rfl⟩ := parametersAll_cons_eq_ok_iff.mp h
    obtain ⟨value, hv, rfl⟩ := parameters_eq_ok_iff.mp hf
    rw [List.flatMap_append, List.length_append, ih ho, List.flatMap_append, Attribute.parameters,
      Parameter.flatMap_values_text, List.flatMap_singleton, List.length_append,
      Test.length_values_of_parameter hv, List.map_cons, List.sum_cons]
    rfl

end Leaf

namespace Filter

open Json (Fan)

variable {e : Entity} {limit : Nat} {raw : String} {f : Filter} {p : Predicate}

/-- Every filter that is accepted has a statement, with the texts of its leaves. -/
theorem exists_searchQuery_of_parse (hf : parse e.allowlist limit raw = .ok f)
    (hp : f.compile = .ok p) (b : Backend) :
    ∃ q, e.searchQuery b p = .ok q ∧ q.binds.length = (f.leaves.map Leaf.bindCount).sum := by
  have hcount : p.placeholderCount = p.parameters.length := by
    refine placeholderCount_of_compile ?_ hp
    intro l hl
    exact Text.not_mem_of_isWord (e.isPlain_allowlist _ (allows_of_parse hf l hl)).1 (by decide)
  obtain ⟨bound, hb, hbinds⟩ := Predicate.exists_bind hcount b e.allowlist
  refine ⟨⟨e.selectIds bound.sql, bound.binds⟩, map_eq_ok_iff.mpr ⟨bound, hb, rfl⟩, ?_⟩
  rw [hbinds, Leaf.length_values_of_parametersAll (compile_eq_ok_iff.mp hp).2]

theorem count_searchQuery_postgres (hf : parse e.allowlist limit raw = .ok f)
    (hp : f.compile = .ok p) {q : BoundQuery} (hq : e.searchQuery .postgres p = .ok q) :
    q.sql.toList.count '$' = q.binds.length := by
  have htext : '$' ∉ p.text.toList := by
    refine not_mem_text_of_compile hp (by decide +kernel) ?_
    intro l hl
    exact Text.not_mem_of_isWord (e.isPlain_allowlist _ (allows_of_parse hf l hl)).1 (by decide)
  obtain ⟨bound, hb, rfl⟩ := map_eq_ok_iff.mp hq
  exact (e.count_selectIds bound.sql).trans (Predicate.count_bind_postgres hb htext)

/-- The texts bound for leaves with so many keys at most, by the room of the leaves. -/
theorem sum_bindCount_le {ls : List Leaf} {d : Nat} (h : ∀ l ∈ ls, l.left.keys.length ≤ d) :
    6 * (ls.map Leaf.bindCount).sum ≤ (max d 2 + 1) * Leaf.roomAll ls := by
  obtain ⟨excess, hroom, hbinds⟩ := Leaf.exists_excess h
  have hkeys : ls.length * (d + 1) ≤ ls.length * (max d 2 + 1) :=
    Nat.mul_le_mul_left _ (Nat.succ_le_succ (Nat.le_max_left d 2))
  have hexcess : 3 * (2 * excess) ≤ (max d 2 + 1) * (2 * excess) :=
    Nat.mul_le_mul_right _ (Nat.succ_le_succ (Nat.le_max_right d 2))
  calc 6 * (ls.map Leaf.bindCount).sum
      ≤ 6 * (ls.length * (max d 2 + 1)) + 3 * (2 * excess) := by omega
    _ ≤ 6 * (ls.length * (max d 2 + 1)) + (max d 2 + 1) * (2 * excess) :=
        Nat.add_le_add_left hexcess _
    _ = (max d 2 + 1) * Leaf.roomAll ls := by rw [hroom]; ring

theorem sum_bindCount_lt (hf : parse e.allowlist limit raw = .ok f) {d : Nat}
    (h : ∀ l ∈ f.leaves, l.left.keys.length ≤ d) :
    6 * (f.leaves.map Leaf.bindCount).sum < (max d 2 + 1) * raw.utf8ByteSize := by
  have hfits := fits_of_parse hf
  by_cases hkeys : ∃ l ∈ f.leaves, l.left.keys ≠ []
  · -- The keys of a leaf take room of their own.
    obtain ⟨l, hl, hne⟩ := hkeys
    have hroom := hfits.keys_room_le l hl
    have hpos := List.length_pos_iff.mpr hne
    have hlt : Leaf.roomAll f.leaves < raw.utf8ByteSize := by omega
    exact (sum_bindCount_le h).trans_lt (Nat.mul_lt_mul_of_pos_left hlt (Nat.succ_pos _))
  · push Not at hkeys
    obtain ⟨excess, hroom, hbinds⟩ := Leaf.exists_excess (d := 0) fun l hl =>
      Nat.le_of_eq (congrArg List.length (hkeys l hl))
    have hbytes := hfits.room_le
    have hpos : 0 < raw.utf8ByteSize := by
      obtain ⟨-, members, hj, -⟩ := parse_eq_ok_iff.mp hf
      exact (Json.extent_pos _).trans (Json.extent_le_of_parse hj)
    have hempty : f.leaves.length = 0 → (f.leaves.map Leaf.bindCount).sum = 0 := by
      intro h
      rw [List.eq_nil_of_length_eq_zero h]
      rfl
    calc 6 * (f.leaves.map Leaf.bindCount).sum
        < 3 * raw.utf8ByteSize := by omega
      _ ≤ (max d 2 + 1) * raw.utf8ByteSize :=
          Nat.mul_le_mul_right _ (Nat.succ_le_succ (Nat.le_max_right d 2))

/-- An accepted filter has a statement with as many placeholders as texts are bound. Their number is
bounded by the size of the document times the number of keys. It stays below what a statement may
carry if no comparison stands below more than five keys, and in documents of at most 3096 bytes. -/
theorem placeholders_le_of_parse (hf : parse e.allowlist defaultLimit raw = .ok f)
    (hp : f.compile = .ok p) :
    ∃ q, e.searchQuery .postgres p = .ok q ∧ q.sql.toList.count '$' = q.binds.length ∧
      (∀ d, (∀ l ∈ f.leaves, l.left.keys.length ≤ d) →
        6 * q.binds.length < (max d 2 + 1) * raw.utf8ByteSize) ∧
      ((∀ l ∈ f.leaves, l.left.keys.length ≤ 5) ∨ raw.utf8ByteSize ≤ 3096 →
        q.binds.length ≤ 65535) := by
  obtain ⟨q, hq, hbinds⟩ := exists_searchQuery_of_parse hf hp .postgres
  have hlaw : ∀ d, (∀ l ∈ f.leaves, l.left.keys.length ≤ d) →
      6 * q.binds.length < (max d 2 + 1) * raw.utf8ByteSize := by
    intro d hd
    rw [hbinds]
    exact sum_bindCount_lt hf hd
  refine ⟨q, hq, count_searchQuery_postgres hf hp hq, hlaw, ?_⟩
  rintro (hfive | hshort)
  · have hbytes : raw.utf8ByteSize ≤ 65536 := (parse_eq_ok_iff.mp hf).1
    have hsix : 6 * q.binds.length < 6 * raw.utf8ByteSize := hlaw 5 hfive
    omega
  · have hdepth : ∀ l ∈ f.leaves, l.left.keys.length ≤ 126 := by
      intro l hl
      have := (fits_of_parse hf).keys_le l hl
      rw [Json.depthMax] at this
      omega
    have hmany : 6 * q.binds.length < 127 * raw.utf8ByteSize := hlaw 126 hdepth
    omega

/-- A document of five keys. -/
def fiveKeys : List Fan :=
  [.letters 1 (by decide), .letters 1 (by decide), .letters 1 (by decide), .letters 26 (by decide),
    .letters 26 (by decide)]

/-- Six hundred and seventy-six comparisons, each below five keys. -/
theorem placeholders_le_of_parse_five_keys :
    ∃ f p q, parse Entity.job.allowlist defaultLimit (Fan.document fiveKeys) = .ok f ∧
      f.compile = .ok p ∧ (∀ l ∈ f.leaves, l.left.keys.length ≤ 5) ∧
      Entity.job.searchQuery .postgres p = .ok q ∧ q.sql.toList.count '$' = q.binds.length ∧
      q.binds.length = 4056 ∧ q.binds.length ≤ 65535 := by
  have hsize : (Fan.document fiveKeys).utf8ByteSize ≤ defaultLimit := by
    rw [Fan.utf8ByteSize_document, fiveKeys]
    simp only [Fan.nestText_cons, Fan.nestText_nil, Fan.utf8Len_letters]
    decide
  have ha : Entity.job.allowlist.Allows "metadata" := by decide
  have hj : Entity.job.allowlist.HoldsJson "metadata" := by decide
  obtain ⟨f, p, hf, hp, hkeys, hsum⟩ := exists_parse_document ha hj (by decide) hsize
  have hfive : ∀ l ∈ f.leaves, l.left.keys.length ≤ 5 := by
    intro l hl
    exact Nat.le_of_eq (hkeys l hl)
  obtain ⟨q, hq, hcount, -, hle⟩ := placeholders_le_of_parse hf hp
  obtain ⟨q', hq', hbinds⟩ := exists_searchQuery_of_parse hf hp .postgres
  cases hq.symm.trans hq'
  have hwidth : Fan.width fiveKeys = 676 := by decide
  refine ⟨f, p, q, hf, hp, hfive, hq, hcount, ?_, hle (.inl hfive)⟩
  rw [hbinds, hsum, hwidth]
  rfl

/-- A document of six keys. -/
def sixKeys : List Fan :=
  [.letters 1 (by decide), .letters 1 (by decide), .letters 1 (by decide), .letters 14 (by decide),
    .letters 26 (by decide), .letters 26 (by decide)]

/-- With six keys a text within the limit can ask for more than a statement may carry. -/
theorem placeholders_exceed_of_sixKeys :
    (Fan.document sixKeys).utf8ByteSize ≤ defaultLimit ∧
      ∃ p q, compileText Entity.job.allowlist defaultLimit (Fan.document sixKeys) = .ok p ∧
        Entity.job.searchQuery .postgres p = .ok q ∧ q.sql.toList.count '$' = q.binds.length ∧
        q.binds.length = 66248 ∧ 65535 < q.binds.length := by
  have hsize : (Fan.document sixKeys).utf8ByteSize ≤ defaultLimit := by
    rw [Fan.utf8ByteSize_document, sixKeys]
    simp only [Fan.nestText_cons, Fan.nestText_nil, Fan.utf8Len_letters]
    decide
  have ha : Entity.job.allowlist.Allows "metadata" := by decide
  have hj : Entity.job.allowlist.HoldsJson "metadata" := by decide
  obtain ⟨f, p, hf, hp, -, hsum⟩ := exists_parse_document ha hj (by decide) hsize
  obtain ⟨q, hq, hbinds⟩ := exists_searchQuery_of_parse hf hp .postgres
  have hmany : q.binds.length = 66248 := by
    have hwidth : Fan.width sixKeys = 9464 := by
      simp [sixKeys, Fan.width, Fan.letters, Fan.alphabet]
    rw [hbinds, hsum, hwidth]
    rfl
  refine ⟨hsize, p, q, ?_, hq, count_searchQuery_postgres hf hp hq, hmany, ?_⟩
  · rw [compileText, hf]
    exact hp
  · omega

end Filter

end SearchFilter
