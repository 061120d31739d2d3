import SearchFilter.Proofs.Filter.Admission

/-!
# The grammar of documents

An entry of a document is a group under a keyword or a field with a literal or with conditions, and
a condition is a comparison or an entry one level below the field. Keywords and operators are never
taken for fields. Main statement: the documents that are accepted are those of the grammar, and the
nodes are those that their entries stand for, in the order of the document.
-/

namespace SearchFilter

namespace Connective

theorem ofKeyword?_eq_some_iff {key : String} {c : Connective} :
    ofKeyword? key = some c ↔ Text.SameFolded key c.keyword := by
  have hne : Text.foldCase "$and" ≠ Text.foldCase "$or" := by decide
  rw [ofKeyword?]
  cases c with
  | and =>
    by_cases ha : Text.SameFolded key "$and"
    · simp [ha, keyword]
    · by_cases ho : Text.SameFolded key "$or" <;> simp [ha, ho, keyword]
  | or =>
    by_cases ha : Text.SameFolded key "$and"
    · have ho : ¬ Text.SameFolded key "$or" := fun ho => hne (ha.symm.trans ho)
      simp [ha, ho, keyword]
    · by_cases ho : Text.SameFolded key "$or" <;> simp [ha, ho, keyword]

theorem ofKeyword?_eq_none_iff {key : String} :
    ofKeyword? key = none ↔ ∀ c : Connective, ¬ Text.SameFolded key c.keyword := by
  simp only [← ofKeyword?_eq_some_iff, Option.eq_none_iff_forall_ne_some, ne_eq]

end Connective

theorem Operator.ofToken?_eq_none_iff {key : String} :
    ofToken? key = none ↔ ∀ op : Operator, key ≠ op.token := by
  simp only [Option.eq_none_iff_forall_ne_some, ne_eq, ofToken?_eq_some_iff]

theorem Condition.exists_ofJson_iff {value : Json} :
    (∃ condition, ofJson value = .ok condition) ↔ value ≠ .null ∧ ∀ b, value ≠ .bool b := by
  cases value <;> simp [ofJson]

/-- What the keys of a scope may be besides keywords: any in JSON, allowed ones among columns. -/
def Allowlist.IsField (allowlist : Allowlist) (scope : Scope) (key : String) : Prop :=
  (∀ c : Connective, ¬ Text.SameFolded key c.keyword) ∧ (scope = .columns → allowlist.Allows key)

/-- A name that goes one level deeper. -/
def Filter.IsPathKey (name : String) : Prop :=
  Connective.ofKeyword? name = none ∧ Operator.ofToken? name = none

instance (name : String) : Decidable (Filter.IsPathKey name) :=
  inferInstanceAs (Decidable (_ ∧ _))

theorem Filter.IsPathKey.isField {key : String} (h : IsPathKey key) (allowlist : Allowlist) :
    allowlist.IsField .json key :=
  ⟨Connective.ofKeyword?_eq_none_iff.mp h.1, fun hs => by cases hs⟩

mutual

/-- The entries that may stand in a scope. -/
inductive WellFormed (allowlist : Allowlist) : Scope → String → Json → Prop
  | group {scope : Scope} {key : String} {c : Connective} {members : List (String × Json)}
      (keyword : Text.SameFolded key c.keyword) (nonempty : members ≠ [])
      (entries : ∀ m ∈ members, WellFormed allowlist scope m.1 m.2) :
      WellFormed allowlist scope key (.object members)
  | string {scope : Scope} {key : String} (s : String) (field : allowlist.IsField scope key) :
      WellFormed allowlist scope key (.string s)
  | number {scope : Scope} {key : String} (n : Json.Number)
      (field : allowlist.IsField scope key) : WellFormed allowlist scope key (.number n)
  | conditions {scope : Scope} {key : String} {members : List (String × Json)}
      (field : allowlist.IsField scope key) (nonempty : members ≠ [])
      (each : ∀ m ∈ members, WellFormedBelow allowlist scope key m.1 m.2) :
      WellFormed allowlist scope key (.object members)

/-- The members that the value of a field may have in a scope. -/
inductive WellFormedBelow (allowlist : Allowlist) : Scope → String → String → Json → Prop
  | comparison {scope : Scope} {field : String} (op : Operator) {condition : Json}
      (notNull : condition ≠ .null) (notBool : ∀ b, condition ≠ .bool b) :
      WellFormedBelow allowlist scope field op.token condition
  | entry {scope : Scope} {field key : String} {value : Json}
      (notOperator : ∀ op : Operator, key ≠ op.token)
      (holdsJson : scope = .json ∨ allowlist.HoldsJson field)
      (below : WellFormed allowlist .json key value) :
      WellFormedBelow allowlist scope field key value

end

namespace Filter

mutual

/-- The nodes that an entry stands for. -/
def nodesOf (key : String) : Json → List FilterNode
  | .object members =>
    match Connective.ofKeyword? key with
    | some c => [.group c (nodesOfEntries members)]
    | none => nodesBelow key members
  | .string s => [.equality key (.text s)]
  | .number n => [.equality key (.number n)]
  | _ => []

def nodesOfEntries : List (String × Json) → List FilterNode
  | [] => []
  | (key, value) :: rest => nodesOf key value ++ nodesOfEntries rest

/-- One node for each member of a field's value. -/
def nodesBelow (field : String) : List (String × Json) → List FilterNode
  | [] => []
  | (key, value) :: rest =>
    (match Operator.ofToken? key, Condition.ofJson value with
      | some op, .ok condition => [.range field op condition]
      | some _, .error _ => []
      | none, _ => [.path field (nodesOf key value)]) ++ nodesBelow field rest

end

variable {allowlist : Allowlist} {scope : Scope} {key field : String} {value : Json}

/-- A key that is no keyword is a field where the check lets it pass. -/
theorem isField_iff (hk : Connective.ofKeyword? key = none) :
    allowlist.IsField scope key ↔ (scope = .columns → strayBelow allowlist key value = []) := by
  rw [Allowlist.IsField, strayBelow_eq_nil_iff hk, ← Connective.ofKeyword?_eq_none_iff]
  simp [hk]

theorem wellFormed_group_iff {c : Connective} {members : List (String × Json)}
    (hk : Connective.ofKeyword? key = some c) :
    WellFormed allowlist scope key (.object members) ↔
      members ≠ [] ∧ ∀ m ∈ members, WellFormed allowlist scope m.1 m.2 := by
  have hc : Text.SameFolded key c.keyword := Connective.ofKeyword?_eq_some_iff.mp hk
  constructor
  · intro h
    cases h with
    | group keyword nonempty entries => exact ⟨nonempty, entries⟩
    | conditions hf nonempty each => exact absurd hc (hf.1 c)
  · rintro ⟨hne, he⟩
    exact .group hc hne he

theorem wellFormed_conditions_iff {members : List (String × Json)}
    (hk : Connective.ofKeyword? key = none) :
    WellFormed allowlist scope key (.object members) ↔
      allowlist.IsField scope key ∧ members ≠ [] ∧
        ∀ m ∈ members, WellFormedBelow allowlist scope key m.1 m.2 := by
  constructor
  · intro h
    cases h with
    | @group _ _ c _ keyword nonempty entries =>
      exact absurd keyword (Connective.ofKeyword?_eq_none_iff.mp hk c)
    | conditions hf nonempty each => exact ⟨hf, nonempty, each⟩
  · rintro ⟨hf, hne, he⟩
    exact .conditions hf hne he

theorem wellFormed_literal_iff {literal : Scalar} (h : Scalar.ofJson? value = some literal) :
    WellFormed allowlist scope key value ↔ allowlist.IsField scope key := by
  constructor
  · intro hw
    cases hw with
    | group => cases h
    | string s hf => exact hf
    | number n hf => exact hf
    | conditions => cases h
  · intro hf
    cases value with
    | string s => exact .string s hf
    | number n => exact .number n hf
    | _ => cases h

theorem exists_literal_of_not_object (hw : WellFormed allowlist scope key value)
    (ho : ∀ members, value ≠ .object members) :
    ∃ literal, Scalar.ofJson? value = some literal ∧ Connective.ofKeyword? key = none := by
  cases hw with
  | group => exact absurd rfl (ho _)
  | string s hf => exact ⟨_, rfl, Connective.ofKeyword?_eq_none_iff.mpr hf.1⟩
  | number n hf => exact ⟨_, rfl, Connective.ofKeyword?_eq_none_iff.mpr hf.1⟩
  | conditions => exact absurd rfl (ho _)

theorem wellFormedBelow_operator_iff {op : Operator} (ho : Operator.ofToken? key = some op) :
    WellFormedBelow allowlist scope field key value ↔
      ∃ condition, Condition.ofJson value = .ok condition := by
  rw [Condition.exists_ofJson_iff]
  have hk : key = op.token := Operator.ofToken?_eq_some_iff.mp ho
  constructor
  · intro h
    cases h with
    | comparison op' hn hb => exact ⟨hn, hb⟩
    | entry hno hj below => exact absurd hk (hno op)
  · rintro ⟨hn, hb⟩
    rw [hk]
    exact .comparison op hn hb

theorem wellFormedBelow_entry_iff (ho : Operator.ofToken? key = none) :
    WellFormedBelow allowlist scope field key value ↔
      (scope = .json ∨ allowlist.HoldsJson field) ∧ WellFormed allowlist .json key value := by
  have hk : ∀ op : Operator, key ≠ op.token := Operator.ofToken?_eq_none_iff.mp ho
  constructor
  · intro h
    cases h with
    | comparison op hn hb => exact absurd rfl (hk op)
    | entry hno hj below => exact ⟨hj, below⟩
  · rintro ⟨hj, hw⟩
    exact .entry hk hj hw

theorem nodesOf_of_literal {literal : Scalar} (h : Scalar.ofJson? value = some literal) :
    nodesOf key value = [.equality key literal] := by
  cases value <;> cases h <;> rw [nodesOf]

theorem readEntry_iff_of_literal {literal : Scalar} {nodes : List FilterNode}
    (hl : Scalar.ofJson? value = some literal) :
    (readEntry allowlist scope key value = .ok nodes ∧
      (scope = .columns → strayBelow allowlist key value = [])) ↔
      WellFormed allowlist scope key value ∧ nodes = nodesOf key value := by
  rw [wellFormed_literal_iff hl, readEntry_eq_ok_iff, nodesOf_of_literal hl]
  constructor
  · rintro ⟨h, hs⟩
    rcases h with ⟨c, ms, children, -, rfl, -⟩ | ⟨ms, -, rfl, -⟩ | ⟨l, hk, hl', rfl⟩
    · cases hl
    · cases hl
    · cases hl.symm.trans hl'
      exact ⟨(isField_iff hk).mpr hs, rfl⟩
  · rintro ⟨hf, rfl⟩
    have hk : Connective.ofKeyword? key = none := Connective.ofKeyword?_eq_none_iff.mpr hf.1
    exact ⟨.inr (.inr ⟨literal, hk, hl, rfl⟩), (isField_iff hk).mp hf⟩

theorem readEntry_iff_of_refused {nodes : List FilterNode} (hl : Scalar.ofJson? value = none)
    (ho : ∀ members, value ≠ .object members) :
    (readEntry allowlist scope key value = .ok nodes ∧
      (scope = .columns → strayBelow allowlist key value = [])) ↔
      WellFormed allowlist scope key value ∧ nodes = nodesOf key value := by
  apply iff_of_false
  · rintro ⟨h, -⟩
    rcases readEntry_eq_ok_iff.mp h with ⟨c, ms, children, -, hm, -⟩ | ⟨ms, -, hm, -⟩ |
      ⟨l, -, hs, -⟩
    · exact ho ms hm
    · exact ho ms hm
    · cases hl.symm.trans hs
  · rintro ⟨h, -⟩
    obtain ⟨l, hs, -⟩ := exists_literal_of_not_object h ho
    cases hl.symm.trans hs

mutual

/-- An entry passes the check and is read exactly if it is well formed, to the nodes it stands
for. -/
theorem readEntry_iff_wellFormed {scope : Scope} {key : String} : (value : Json) → ∀ nodes,
    (readEntry allowlist scope key value = .ok nodes ∧
      (scope = .columns → strayBelow allowlist key value = [])) ↔
      WellFormed allowlist scope key value ∧ nodes = nodesOf key value
  | .object members => by
    intro nodes
    cases hk : Connective.ofKeyword? key with
    | some c =>
      rw [wellFormed_group_iff hk, nodesOf, hk, readEntry_eq_ok_iff, strayBelow, hk]
      constructor
      · rintro ⟨h, hs⟩
        rcases h with ⟨d, ms, children, hd, hm, hne, hr, rfl⟩ | ⟨ms, hn, -⟩ | ⟨l, hn, -⟩
        · cases hm
          cases hd
          obtain ⟨he, rfl⟩ := (readEntries_iff_wellFormed members children).mp ⟨hr, hs⟩
          exact ⟨⟨hne, he⟩, rfl⟩
        · cases hn
        · cases hn
      · rintro ⟨⟨hne, he⟩, rfl⟩
        obtain ⟨hr, hs⟩ := (readEntries_iff_wellFormed members _).mpr ⟨he, rfl⟩
        exact ⟨.inl ⟨c, members, _, rfl, rfl, hne, hr, rfl⟩, hs⟩
    | none =>
      rw [wellFormed_conditions_iff hk, nodesOf, hk, isField_iff hk, readEntry_eq_ok_iff]
      constructor
      · rintro ⟨h, hs⟩
        rcases h with ⟨d, ms, children, hd, -⟩ | ⟨ms, -, hm, hne, hr⟩ | ⟨l, -, hl, -⟩
        · cases hk.symm.trans hd
        · cases hm
          obtain ⟨he, rfl⟩ := (readConditions_iff_wellFormed members nodes).mp hr
          exact ⟨⟨hs, hne, he⟩, rfl⟩
        · cases hl
      · rintro ⟨⟨hs, hne, he⟩, rfl⟩
        have hr := (readConditions_iff_wellFormed members _).mpr ⟨he, rfl⟩
        exact ⟨.inr (.inl ⟨members, hk, rfl, hne, hr⟩), hs⟩
  | .string s => fun _ => readEntry_iff_of_literal rfl
  | .number n => fun _ => readEntry_iff_of_literal rfl
  | .array items => fun _ => readEntry_iff_of_refused rfl (by simp)
  | .bool b => fun _ => readEntry_iff_of_refused rfl (by simp)
  | .null => fun _ => readEntry_iff_of_refused rfl (by simp)

theorem readEntries_iff_wellFormed {scope : Scope} : (members : List (String × Json)) → ∀ nodes,
    (readEntries allowlist scope members = .ok nodes ∧
      (scope = .columns → strayFields allowlist members = [])) ↔
      (∀ m ∈ members, WellFormed allowlist scope m.1 m.2) ∧ nodes = nodesOfEntries members
  | [] => by
    intro nodes
    simp [readEntries_nil, nodesOfEntries, strayFields, eq_comm]
  | (key, value) :: rest => by
    intro nodes
    have hs : (scope = .columns → strayFields allowlist ((key, value) :: rest) = []) ↔
        (scope = .columns → strayBelow allowlist key value = []) ∧
          (scope = .columns → strayFields allowlist rest = []) := by
      rw [strayFields, List.append_eq_nil_iff, imp_and]
    rw [readEntries_cons_eq_ok_iff, hs, List.forall_mem_cons, nodesOfEntries]
    constructor
    · rintro ⟨⟨first, others, hf, ho, rfl⟩, hc, hr⟩
      obtain ⟨hw, rfl⟩ := (readEntry_iff_wellFormed value first).mp ⟨hf, hc⟩
      obtain ⟨hws, rfl⟩ := (readEntries_iff_wellFormed rest others).mp ⟨ho, hr⟩
      exact ⟨⟨hw, hws⟩, rfl⟩
    · rintro ⟨⟨hw, hws⟩, rfl⟩
      obtain ⟨hf, hc⟩ := (readEntry_iff_wellFormed value _).mpr ⟨hw, rfl⟩
      obtain ⟨ho, hr⟩ := (readEntries_iff_wellFormed rest _).mpr ⟨hws, rfl⟩
      exact ⟨⟨_, _, hf, ho, rfl⟩, hc, hr⟩

theorem readConditions_iff_wellFormed {scope : Scope} {field : String} :
    (members : List (String × Json)) → ∀ nodes,
      readConditions allowlist scope field members = .ok nodes ↔
        (∀ m ∈ members, WellFormedBelow allowlist scope field m.1 m.2) ∧
          nodes = nodesBelow field members
  | [] => by
    intro nodes
    simp [readConditions_nil, nodesBelow, eq_comm]
  | (key, value) :: rest => by
    intro nodes
    rw [readConditions_cons_eq_ok_iff, List.forall_mem_cons, nodesBelow]
    cases ho : Operator.ofToken? key with
    | some op =>
      rw [wellFormedBelow_operator_iff ho]
      constructor
      · rintro ⟨node, others, hn, hr, rfl⟩
        obtain ⟨hws, rfl⟩ := (readConditions_iff_wellFormed rest others).mp hr
        rcases hn with ⟨op', condition, he, hc, rfl⟩ | ⟨below, children, hnone, -⟩
        · cases he
          rw [hc]
          exact ⟨⟨⟨condition, rfl⟩, hws⟩, rfl⟩
        · cases hnone
      · rintro ⟨⟨⟨condition, hc⟩, hws⟩, rfl⟩
        have hr := (readConditions_iff_wellFormed rest _).mpr ⟨hws, rfl⟩
        rw [hc]
        exact ⟨_, _, .inl ⟨op, condition, rfl, rfl, rfl⟩, hr, rfl⟩
    | none =>
      rw [wellFormedBelow_entry_iff ho]
      constructor
      · rintro ⟨node, others, hn, hr, rfl⟩
        obtain ⟨hws, rfl⟩ := (readConditions_iff_wellFormed rest others).mp hr
        rcases hn with ⟨op', condition, he, -⟩ | ⟨below, children, -, hb, hc, rfl⟩
        · cases he
        · obtain ⟨rfl, hj⟩ := below?_eq_some_iff.mp hb
          obtain ⟨hw, rfl⟩ := (readEntry_iff_wellFormed value children).mp ⟨hc, by simp⟩
          exact ⟨⟨⟨hj, hw⟩, hws⟩, rfl⟩
      · rintro ⟨⟨⟨hj, hw⟩, hws⟩, rfl⟩
        obtain ⟨hc, -⟩ := (readEntry_iff_wellFormed value _).mpr ⟨hw, rfl⟩
        have hr := (readConditions_iff_wellFormed rest _).mpr ⟨hws, rfl⟩
        exact ⟨_, _, .inr ⟨.json, _, rfl, below?_eq_some_iff.mpr ⟨rfl, hj⟩, hc, rfl⟩, hr, rfl⟩

end

theorem exists_ofMembers_of_wellFormed {members : List (String × Json)} (hne : members ≠ [])
    (hw : ∀ m ∈ members, WellFormed allowlist .columns m.1 m.2) :
    ∃ f, ofMembers allowlist members = .ok f ∧ f.nodes = nodesOfEntries members := by
  obtain ⟨hr, hs⟩ := (readEntries_iff_wellFormed members _).mpr ⟨hw, rfl⟩
  have hn : nodesOfEntries members ≠ [] := (admitted_of_readEntries members _ hs hr).1 hne
  exact ⟨⟨_, hn⟩, ofMembers_eq_ok_iff.mpr ⟨hne, hs rfl, hr⟩, rfl⟩

/-- The documents of the grammar are accepted and no others, and a filter has the nodes that the
entries of its document stand for. -/
theorem parse_iff_wellFormed (allowlist : Allowlist) (limit : Nat) (raw : String) :
    ((∃ f, parse allowlist limit raw = .ok f) ↔
      raw.utf8ByteSize ≤ limit ∧ ∃ members, Json.parse raw = .ok (.object members) ∧
        members ≠ [] ∧ ∀ m ∈ members, WellFormed allowlist .columns m.1 m.2) ∧
    ∀ f members, parse allowlist limit raw = .ok f → Json.parse raw = .ok (.object members) →
      f.nodes = nodesOfEntries members := by
  constructor
  · constructor
    · rintro ⟨f, h⟩
      obtain ⟨hl, members, hj, hne, hs, hr⟩ := parse_eq_ok_iff.mp h
      obtain ⟨hw, -⟩ := (readEntries_iff_wellFormed members f.nodes).mp ⟨hr, fun _ => hs⟩
      exact ⟨hl, members, hj, hne, hw⟩
    · rintro ⟨hl, members, hj, hne, hw⟩
      obtain ⟨hr, hs⟩ := (readEntries_iff_wellFormed members _).mpr ⟨hw, rfl⟩
      have hn : nodesOfEntries members ≠ [] := (admitted_of_readEntries members _ hs hr).1 hne
      exact ⟨⟨_, hn⟩, parse_eq_ok_iff.mpr ⟨hl, members, hj, hne, hs rfl, hr⟩⟩
  · intro f members h hj
    obtain ⟨-, members', hj', -, hs, hr⟩ := parse_eq_ok_iff.mp h
    cases hj.symm.trans hj'
    exact ((readEntries_iff_wellFormed members f.nodes).mp ⟨hr, fun _ => hs⟩).2

/-- A keyword in any case is no key of the JSON, and within its group an operator is no operator. -/
theorem parse_iff_wellFormed_shadowed :
    let allowlist := Allowlist.empty.withJson ["m"]
    ∃ f, parse allowlist 25 "\x7b\"m\":\x7b\"$And\":\x7b\"in\":\"x\"\x7d\x7d\x7d" = .ok f ∧
      f.nodes = [.path "m" [.group .and [.equality "in" (.text "x")]]] := by
  intro allowlist
  have hj : Json.parse "\x7b\"m\":\x7b\"$And\":\x7b\"in\":\"x\"\x7d\x7d\x7d" =
      .ok (.object [("m", .object [("$And", .object [("in", .string "x")])])]) := by rfl
  have hgroup : WellFormed allowlist .json "$And" (.object [("in", .string "x")]) := by
    have hin : WellFormed allowlist .json "in" (.string "x") := by
      refine .string "x" ⟨?_, by simp⟩
      intro c
      cases c <;> decide
    exact .group (c := .and) (by decide) (by simp) (by simpa using hin)
  have hm : WellFormed allowlist .columns "m"
      (.object [("$And", .object [("in", .string "x")])]) := by
    have hfield : allowlist.IsField .columns "m" := by
      refine ⟨?_, fun _ => by decide⟩
      intro c
      cases c <;> decide
    have hbelow : WellFormedBelow allowlist .columns "m" "$And"
        (.object [("in", .string "x")]) := by
      refine .entry ?_ (.inr (by decide)) hgroup
      intro op
      cases op <;> decide
    exact .conditions hfield (by simp) (by simpa using hbelow)
  have hp := parse_iff_wellFormed allowlist 25
    "\x7b\"m\":\x7b\"$And\":\x7b\"in\":\"x\"\x7d\x7d\x7d"
  obtain ⟨f, hf⟩ := hp.1.mpr ⟨by decide, _, hj, by simp, by simpa using hm⟩
  refine ⟨f, hf, ?_⟩
  rw [hp.2 f _ hf hj]
  have hk : Connective.ofKeyword? "m" = none := by decide
  have hk' : Connective.ofKeyword? "$And" = some .and := by decide
  have ho : Operator.ofToken? "$And" = none := by decide
  simp [nodesOfEntries, nodesOf, nodesBelow, hk, hk', ho]

end Filter

end SearchFilter
