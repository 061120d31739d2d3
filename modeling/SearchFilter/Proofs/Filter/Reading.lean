import SearchFilter.Filter.Document
import SearchFilter.Proofs.Except

/-!
# What the reader accepts

The entries of a document that are read to nodes, one alternative per rule: a group of entries, a
field with its conditions, a field with a literal. A member of a field's value is an operator with a
condition or, where the field may be looked into, an entry one level below.
-/

namespace SearchFilter

namespace Filter

variable {allowlist : Allowlist} {scope : Scope} {key field : String} {value : Json}
  {members rest : List (String × Json)} {nodes : List FilterNode} {node : FilterNode}

theorem below?_eq_some_iff {below : Scope} : scope.below? allowlist field = some below ↔
    below = .json ∧ (scope = .json ∨ allowlist.HoldsJson field) := by
  cases scope with
  | json => simp [Scope.below?, eq_comm]
  | columns => by_cases h : allowlist.HoldsJson field <;> simp [Scope.below?, h, eq_comm]

theorem strayBelow_eq_nil_iff (hk : Connective.ofKeyword? key = none) :
    strayBelow allowlist key value = [] ↔ allowlist.Allows key := by
  by_cases ha : allowlist.Allows key <;> cases value <;> simp [strayBelow, hk, ha]

/-- An entry is a group, a field with conditions or a field with a literal. -/
theorem readEntry_eq_ok_iff : readEntry allowlist scope key value = .ok nodes ↔
    (∃ c members children, Connective.ofKeyword? key = some c ∧ value = .object members ∧
      members ≠ [] ∧ readEntries allowlist scope members = .ok children ∧
      nodes = [.group c children]) ∨
    (∃ members, Connective.ofKeyword? key = none ∧ value = .object members ∧ members ≠ [] ∧
      readConditions allowlist scope key members = .ok nodes) ∨
    (∃ literal, Connective.ofKeyword? key = none ∧ Scalar.ofJson? value = some literal ∧
      nodes = [.equality key literal]) := by
  cases hk : Connective.ofKeyword? key with
  | some c =>
    cases value with
    | object members =>
      rw [readEntry, hk]
      by_cases hm : members = []
      · simp [hm]
      · simp only [List.isEmpty_iff, hm, if_false, bind_eq_ok_iff, pure_eq_ok_iff]
        simp [hm]
    | _ => simp [readEntry, hk]
  | none =>
    cases value with
    | object members =>
      rw [readEntry, hk]
      by_cases hm : members = []
      · simp [hm, Scalar.ofJson?]
      · simp [hm, Scalar.ofJson?]
    | _ => simp [readEntry, hk, Scalar.ofJson?, eq_comm]

@[simp] theorem readEntries_nil : readEntries allowlist scope [] = .ok [] := by
  rw [readEntries]

theorem readEntries_cons_eq_ok_iff :
    readEntries allowlist scope ((key, value) :: rest) = .ok nodes ↔
      ∃ first others, readEntry allowlist scope key value = .ok first ∧
        readEntries allowlist scope rest = .ok others ∧ nodes = first ++ others := by
  rw [readEntries]
  simp only [bind_eq_ok_iff, pure_eq_ok_iff, exists_and_left]

@[simp] theorem readConditions_nil : readConditions allowlist scope field [] = .ok [] := by
  rw [readConditions]

theorem readConditions_cons_eq_ok_iff :
    readConditions allowlist scope field ((key, value) :: rest) = .ok nodes ↔
      ∃ node others,
        ((∃ op condition, Operator.ofToken? key = some op ∧
            Condition.ofJson value = .ok condition ∧ node = .range field op condition) ∨
          ∃ below children, Operator.ofToken? key = none ∧
            scope.below? allowlist field = some below ∧
            readEntry allowlist below key value = .ok children ∧ node = .path field children) ∧
        readConditions allowlist scope field rest = .ok others ∧ nodes = node :: others := by
  rw [readConditions]
  cases Operator.ofToken? key with
  | some op =>
    simp only [bind_eq_ok_iff, map_eq_ok_iff, pure_eq_ok_iff]
    simp
  | none =>
    cases scope.below? allowlist field with
    | none =>
      simp only [bind_eq_ok_iff]
      simp
    | some below =>
      simp only [bind_eq_ok_iff, map_eq_ok_iff, pure_eq_ok_iff]
      simp

theorem addAllNew_eq_nil {fields : List String} : addAllNew [] fields = [] ↔ fields = [] := by
  constructor
  · intro h
    apply List.eq_nil_iff_forall_not_mem.mpr
    intro field hf
    have : field ∈ addAllNew [] fields := mem_addAllNew.mpr (.inr hf)
    rw [h] at this
    cases this
  · rintro rfl
    rfl

theorem ofNodes_eq_ok_iff {f : Filter} : ofNodes nodes = .ok f ↔ f.nodes = nodes := by
  constructor
  · exact nodes_of_ofNodes
  · rintro rfl
    obtain ⟨nodes, hne⟩ := f
    cases nodes with
    | nil => exact absurd rfl hne
    | cons n ns => rfl

theorem ofMembers_eq_ok_iff {f : Filter} : ofMembers allowlist members = .ok f ↔
    members ≠ [] ∧ strayFields allowlist members = [] ∧
      readEntries allowlist .columns members = .ok f.nodes := by
  rw [ofMembers]
  by_cases hm : members = []
  · simp [hm]
  · simp only [List.isEmpty_iff, hm, if_false]
    cases hs : addAllNew [] (strayFields allowlist members) with
    | nil =>
      have hr : (readEntries allowlist .columns members).bind ofNodes = .ok f ↔
          readEntries allowlist .columns members = .ok f.nodes := by
        refine bind_eq_ok_iff.trans ?_
        simp [ofNodes_eq_ok_iff]
      simp [hm, hr, addAllNew_eq_nil.mp hs]
    | cons field fields =>
      have : strayFields allowlist members ≠ [] := by
        intro h
        rw [addAllNew_eq_nil.mpr h] at hs
        cases hs
      simp [this]

theorem parse_of_short {limit : Nat} {raw : String} (hl : raw.utf8ByteSize ≤ limit)
    (hj : Json.parse raw = .ok (.object members)) :
    parse allowlist limit raw = ofMembers allowlist members := by
  rw [parse, if_neg (Nat.not_lt.mpr hl), hj]

/-- A text is accepted if it is short enough and decodes to an object with at least one member, in
which no field strays and whose entries are read. -/
theorem parse_eq_ok_iff {limit : Nat} {raw : String} {f : Filter} :
    parse allowlist limit raw = .ok f ↔ raw.utf8ByteSize ≤ limit ∧
      ∃ members, Json.parse raw = .ok (.object members) ∧ members ≠ [] ∧
        strayFields allowlist members = [] ∧
          readEntries allowlist .columns members = .ok f.nodes := by
  rw [parse]
  by_cases hl : limit < raw.utf8ByteSize
  · simp [hl, Nat.not_le.mpr hl]
  · rw [if_neg hl]
    simp only [Nat.not_lt.mp hl, true_and]
    cases Json.parse raw with
    | error message => simp
    | ok value =>
      cases value with
      | object members => simp [ofMembers_eq_ok_iff]
      | _ => simp

end Filter

end SearchFilter
