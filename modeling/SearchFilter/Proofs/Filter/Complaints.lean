import SearchFilter.Proofs.Filter.Places
import SearchFilter.Proofs.Predicate.Collecting

/-!
# Which error is reported

A text may have several things wrong with it: its size, its decoding, the lack of members, unknown
keys among its columns, faults of its places, conditions that do not fit. Main statements: what is
reported is the first of these kinds that applies, wherever in the text it is found, and unknown
keys are reported all at once.
-/

namespace SearchFilter

theorem Objection.eq_of_head? {o : Objection} (h : o.message.toList.head? = some 'T') :
    (∃ fields, o = .unknownFields fields) ∨ (∃ op, o = .arrayCompared op) ∨
      (∃ op, o = .objectCompared op) ∨ ∃ message, o = .other message := by
  unfold message at h
  cases o <;> simp [toString] at h ⊢

theorem Objection.head?_unknownFields (fields : List String) :
    (unknownFields fields).message.toList.head? = some 'T' := by
  unfold message
  simp

namespace Operator

theorem eq_listItemNotString_of_error {items : List Json} {e : FilterError}
    (h : items.mapM parameter.text = .error e) : e = .invalid .listItemNotString := by
  induction items with
  | nil => cases h
  | cons item items ih =>
    rw [List.mapM_cons] at h
    cases item with
    | string s =>
      cases hs : items.mapM parameter.text with
      | error e' =>
        rw [hs] at h ih
        cases h
        exact ih rfl
      | ok ss =>
        rw [hs] at h
        cases h
    | _ =>
      cases h
      rfl

theorem exists_invalid_of_error {op : Operator} {condition : Condition} {e : FilterError}
    (h : op.parameter condition = .error e) : ∃ objection, e = .invalid objection := by
  cases condition with
  | scalar value =>
    cases op <;> cases h
    exact ⟨_, rfl⟩
  | map members => cases op <;> cases h <;> exact ⟨_, rfl⟩
  | list items =>
    cases op with
    | oneOf =>
      rw [parameter] at h
      cases hs : items.mapM parameter.text with
      | ok ss =>
        rw [hs] at h
        cases h
      | error e' =>
        rw [hs] at h
        cases h
        exact ⟨_, eq_listItemNotString_of_error hs⟩
    | _ =>
      cases h
      exact ⟨_, rfl⟩

end Operator

namespace Leaf

theorem exists_stopsAt_iff {ls : List Leaf} {e : FilterError} :
    (∃ kept, StopsAt ls e kept) ↔
      ∃ l, ls.find? (fun l => ¬ l.test.Fits) = some l ∧ l.test.parameter = .error e := by
  constructor
  · rintro ⟨kept, before, l, after, rfl, hb, he⟩
    have hfits := exists_parametersAll_iff.mp ⟨kept, hb⟩
    refine ⟨l, List.find?_eq_some_iff_append.mpr ⟨?_, before, after, rfl, ?_⟩, he⟩
    · simpa using Test.not_fits_of_error he
    · simpa using hfits
  · rintro ⟨l, hl, he⟩
    obtain ⟨-, before, after, rfl, hfits⟩ := List.find?_eq_some_iff_append.mp hl
    obtain ⟨kept, hb⟩ := exists_parametersAll_iff.mpr (by simpa using hfits)
    exact ⟨kept, before, l, after, rfl, hb, he⟩

end Leaf

namespace Filter

/-- The members of a text that decodes to an object. -/
def membersOf (raw : String) : List (String × Json) :=
  match Json.parse raw with
  | .ok (.object members) => members
  | _ => []

def tooLarge? (limit : Nat) (raw : String) : Option FilterError :=
  if limit < raw.utf8ByteSize then some (.tooLarge limit) else none

def malformed? (raw : String) : Option FilterError :=
  match Json.parse raw with
  | .error message => some (.malformed message)
  | .ok (.object _) => none
  | .ok _ => some (.malformed "filter must be a JSON object")

def empty? (members : List (String × Json)) : Option FilterError :=
  if members.isEmpty then some .empty else none

/-- All unknown keys at once, each where it occurs first. -/
def unknown? (allowlist : Allowlist) (members : List (String × Json)) : Option FilterError :=
  if unknownKeys allowlist members = [] then none
  else some (.invalid (.unknownFields (unknownKeys allowlist members).eraseDups))

/-- What is wrong with the first condition that does not fit its operator. -/
def unfit? (nodes : List FilterNode) : Option FilterError :=
  ((FilterNode.leavesAll [] nodes).find? fun l => ¬ l.test.Fits).bind fun l =>
    match l.test.parameter with
    | .ok _ => none
    | .error e => some e

/-- The kinds of complaints about a text by rank, each looked for without regard to the others. -/
def complaints (allowlist : Allowlist) (limit : Nat) (raw : String) : List (Option FilterError) :=
  let members := membersOf raw
  [tooLarge? limit raw, malformed? raw, empty? members, unknown? allowlist members,
    firstFault? allowlist (placesOfEntries .columns members), unfit? (nodesOfEntries members)]

variable {allowlist : Allowlist} {limit : Nat} {raw : String} {members : List (String × Json)}
  {e : FilterError}

theorem compile_eq_error_iff_unfit? {f : Filter} :
    f.compile = .error e ↔ unfit? f.nodes = some e := by
  rw [compile_eq_error_iff, Leaf.exists_stopsAt_iff, unfit?, Option.bind_eq_some_iff]
  apply exists_congr
  intro l
  rw [leaves]
  cases l.test.parameter <;> simp

theorem ofMembers_of_unknownKeys (hne : members ≠ []) (hu : unknownKeys allowlist members ≠ []) :
    ofMembers allowlist members =
      .error (.invalid (.unknownFields (unknownKeys allowlist members).eraseDups)) := by
  have hs : addAllNew [] (unknownKeys allowlist members) ≠ [] := by
    rwa [ne_eq, addAllNew_eq_nil]
  rw [addAllNew_nil] at hs
  rw [ofMembers, if_neg (by simpa using hne), strayFields_eq_unknownKeys, addAllNew_nil]
  cases h : (unknownKeys allowlist members).eraseDups with
  | nil => exact absurd h hs
  | cons key keys => rfl

/-- Without unknown keys the members are read, barring a fault of a place. -/
theorem ofMembers_of_known (hne : members ≠ []) (hu : unknownKeys allowlist members = []) :
    ofMembers allowlist members =
      (barring (firstFault? allowlist (placesOfEntries .columns members))
        (nodesOfEntries members)).bind ofNodes := by
  rw [ofMembers, if_neg (by simpa using hne), strayFields_eq_unknownKeys, addAllNew_nil, hu,
    readEntries_eq_barring]
  rfl

theorem compileMembers_eq_error_iff :
    (ofMembers allowlist members).bind compile = .error e ↔
      [empty? members, unknown? allowlist members,
        firstFault? allowlist (placesOfEntries .columns members),
        unfit? (nodesOfEntries members)].findSome? id = some e := by
  by_cases hne : members = []
  · simp [hne, ofMembers, empty?, Except.bind]
  · have he : empty? members = none := by simp [empty?, hne]
    by_cases hu : unknownKeys allowlist members = []
    · have hk : unknown? allowlist members = none := by rw [unknown?, if_pos hu]
      cases hf : firstFault? allowlist (placesOfEntries .columns members) with
      | some e' =>
        rw [ofMembers_of_known hne hu, hf]
        simp [he, hk, barring, Except.bind]
      | none =>
        obtain ⟨f, hp, hn⟩ := exists_ofMembers hne hu hf
        have hc : (Except.ok f : Except FilterError Filter).bind compile = .error e ↔
            unfit? f.nodes = some e := compile_eq_error_iff_unfit?
        rw [hp, hc, ← hn]
        simp only [he, hk, List.findSome?_cons, id_eq]
        cases unfit? f.nodes <;> simp
    · rw [ofMembers_of_unknownKeys hne hu]
      simp [he, unknown?, hu, Except.bind]

/-- An operator is unknown directly below a column without JSON; the other faults are objections to
the shape of an entry or of a condition. -/
theorem Place.fault_cases {p : Place} (h : p.fault? allowlist = some e) :
    (∃ field token value, p = .member .columns field token value ∧
      ¬ allowlist.HoldsJson field ∧ Operator.ofToken? token = none ∧ e = .unknownOperator token) ∨
    ∃ objection : Objection, e = .invalid objection ∧
      objection.message.toList.head? ≠ some 'T' := by
  cases p with
  | entry scope key value =>
    right
    cases hk : Connective.ofKeyword? key <;> rcases value with _ | _ | _ | _ | _ | (_ | _) <;>
      simp only [fault?, hk, reduceCtorEq, Option.some.injEq] at h <;> subst h <;>
      refine ⟨_, rfl, fun ht => ?_⟩ <;> simpa using Objection.eq_of_head? ht
  | member scope field key value =>
    cases ho : Operator.ofToken? key with
    | some op =>
      right
      cases value <;> simp only [fault?, ho, reduceCtorEq, Option.some.injEq] at h <;> subst h <;>
        refine ⟨_, rfl, fun ht => ?_⟩ <;> simpa using Objection.eq_of_head? ht
    | none =>
      left
      by_cases hs : scope = .columns ∧ ¬ allowlist.HoldsJson field
      · simp only [fault?, ho, if_pos hs, Option.some.injEq] at h
        exact ⟨field, key, value, by rw [hs.1], hs.2, ho, h.symm⟩
      · simp [fault?, ho, if_neg hs] at h

theorem ne_unknownOperator_of_unfit? {nodes : List FilterNode} {token : String} :
    unfit? nodes ≠ some (.unknownOperator token) := by
  intro h
  obtain ⟨⟨left, test⟩, -, h⟩ := Option.bind_eq_some_iff.mp h
  cases test with
  | equal value => cases h
  | compare op condition =>
    cases he : op.parameter condition with
    | ok value => simp [Test.parameter, he] at h
    | error e =>
      obtain ⟨objection, rfl⟩ := Operator.exists_invalid_of_error he
      simp [Test.parameter, he] at h

theorem firstFault?_of_unknownOperator {token : String}
    (h : (complaints allowlist limit raw).findSome? id = some (.unknownOperator token)) :
    firstFault? allowlist (placesOfEntries .columns (membersOf raw)) =
      some (.unknownOperator token) := by
  obtain ⟨complaint, hm, hc⟩ := List.exists_of_findSome?_eq_some h
  obtain rfl : complaint = some (.unknownOperator token) := hc
  simp only [complaints, List.mem_cons, List.not_mem_nil, or_false] at hm
  rcases hm with h | h | h | h | h | h
  · rw [tooLarge?] at h
    split at h <;> cases h
  · rw [malformed?] at h
    split at h <;> cases h
  · rw [empty?] at h
    split at h <;> cases h
  · rw [unknown?] at h
    split at h <;> cases h
  · exact h.symm
  · exact absurd h.symm ne_unknownOperator_of_unfit?

/-- What is reported is the first complaint there is. An operator is unknown only directly below a
column without JSON, at the first place with a fault. -/
theorem compileText_eq_error_iff (allowlist : Allowlist) (limit : Nat) (raw : String) :
    (∀ e, compileText allowlist limit raw = .error e ↔
      (complaints allowlist limit raw).findSome? id = some e) ∧
    ∀ token, compileText allowlist limit raw = .error (.unknownOperator token) →
      ∃ before field value after, placesOfEntries .columns (membersOf raw) =
          before ++ .member .columns field token value :: after ∧
        (∀ p ∈ before, p.fault? allowlist = none) ∧ ¬ allowlist.HoldsJson field ∧
        ∀ op : Operator, token ≠ op.token := by
  have first : ∀ e, compileText allowlist limit raw = .error e ↔
      (complaints allowlist limit raw).findSome? id = some e := by
    intro e
    rw [compileText, parse]
    by_cases hl : limit < raw.utf8ByteSize
    · simp [complaints, tooLarge?, hl, Except.bind]
    · rw [if_neg hl]
      cases hj : Json.parse raw with
      | error message => simp [complaints, tooLarge?, malformed?, hl, hj, Except.bind]
      | ok value =>
        cases value with
        | object members =>
          refine compileMembers_eq_error_iff.trans ?_
          simp [complaints, tooLarge?, malformed?, membersOf, hl, hj]
        | _ => simp [complaints, tooLarge?, malformed?, hl, hj, Except.bind]
  refine ⟨first, ?_⟩
  intro token h
  have hf := firstFault?_of_unknownOperator ((first _).mp h)
  obtain ⟨before, p, after, hp, hq, hbefore⟩ := List.findSome?_eq_some_iff.mp hf
  rcases Place.fault_cases hq with ⟨field, _, value, rfl, hj, ho, he⟩ | ⟨objection, he, -⟩
  · cases he
    exact ⟨before, field, value, after, hp, hbefore, hj, Operator.ofToken?_eq_none_iff.mp ho⟩
  · cases he

/-- A list is missing in the first entry and an object in the last; the unknown operator between
them is reported. Below the column with JSON its name is a key. -/
theorem compileText_eq_error_iff_between :
    let allowlist := (Allowlist.ofFields ["name"]).withJson ["metadata"]
    let raw :=
      "\x7b\"name\":\x7b\"in\":\"x\"\x7d,\"metadata\":\x7b\"gte\":\x7b\"$And\":\x7b\"a\":1" ++
      "\x7d\x7d\x7d,\"$OR\":\x7b\"name\":\x7b\"lt\":1,\"gte\":\"A\"\x7d,\"metadata\":null\x7d\x7d"
    compileText allowlist 65536 raw = .error (.unknownOperator "gte") ∧
      ∃ before field value after, placesOfEntries .columns (membersOf raw) =
          before ++ .member .columns field "gte" value :: after ∧
        (∀ p ∈ before, p.fault? allowlist = none) ∧ ¬ allowlist.HoldsJson field := by
  intro allowlist raw
  have hj : Json.parse raw = .ok (.object [("name", .object [("in", .string "x")]),
      ("metadata", .object [("gte", .object [("$And", .object [("a", .number (.natural 1))])])]),
      ("$OR", .object [("name", .object [("lt", .number (.natural 1)), ("gte", .string "A")]),
        ("metadata", .null)])]) := by
    rw [Json.parse, String.toList_append]
    rfl
  have hc : (complaints allowlist 65536 raw).findSome? id = some (.unknownOperator "gte") := by
    have hl : tooLarge? 65536 raw = none := by decide
    rw [complaints, malformed?, membersOf, hj, hl]
    decide
  obtain ⟨first, unknown⟩ := compileText_eq_error_iff allowlist 65536 raw
  have h := (first _).mpr hc
  obtain ⟨before, field, value, after, hp, hb, hf, -⟩ := unknown _ h
  exact ⟨h, before, field, value, after, hp, hb, hf⟩

/-- Unknown keys are reported all at once and each where it occurs first, whatever else is wrong;
without unknown keys no report reads like theirs. -/
theorem parse_rejects_unknownKeys {allowlist : Allowlist} {limit : Nat} {raw : String}
    {members : List (String × Json)} (hl : raw.utf8ByteSize ≤ limit)
    (hj : Json.parse raw = .ok (.object members)) (hne : members ≠ []) :
    (unknownKeys allowlist members ≠ [] → parse allowlist limit raw =
      .error (.invalid (.unknownFields (unknownKeys allowlist members).eraseDups))) ∧
    (unknownKeys allowlist members = [] → ∀ e fields, parse allowlist limit raw = .error e →
      e.message ≠ (FilterError.invalid (.unknownFields fields)).message) := by
  rw [parse_of_short hl hj]
  refine ⟨ofMembers_of_unknownKeys hne, ?_⟩
  intro hu e fields h hm
  have ht : e.message.toList.head? = some 'T' := by
    rw [hm]
    exact Objection.head?_unknownFields fields
  cases hf : firstFault? allowlist (placesOfEntries .columns members) with
  | none =>
    obtain ⟨f, hp, -⟩ := exists_ofMembers hne hu hf
    rw [hp] at h
    cases h
  | some e' =>
    rw [ofMembers_of_known hne hu, hf] at h
    cases h
    obtain ⟨p, -, hp⟩ := List.exists_of_findSome?_eq_some hf
    rcases Place.fault_cases hp with ⟨field, token, value, -, -, -, rfl⟩ | ⟨objection, rfl, ho⟩
    · unfold FilterError.message at ht
      simp [toString] at ht
    · exact ho ht

/-- Keys of a group in a group count, keys of a column do not, and neither the group that is no
object nor the values that are no conditions come first. -/
theorem parse_rejects_unknownKeys_repeated :
    let allowlist := (Allowlist.ofFields ["name"]).withJson ["metadata"]
    let raw :=
      "\x7b\"b\":null,\"$OR\":\x7b\"name\":\x7b\"zz\":1\x7d,\"a\":[],\"$and\":\x7b\"b\":true," ++
      "\"c\":1\x7d\x7d,\"metadata\":\x7b\"d\":1\x7d,\"$and\":3\x7d"
    parse allowlist 65536 raw = .error (.invalid (.unknownFields ["b", "a", "c"])) := by
  intro allowlist raw
  have hj : Json.parse raw = .ok (.object [("b", .null),
      ("$OR", .object [("name", .object [("zz", .number (.natural 1))]), ("a", .array []),
        ("$and", .object [("b", .bool true), ("c", .number (.natural 1))])]),
      ("metadata", .object [("d", .number (.natural 1))]),
      ("$and", .number (.natural 3))]) := by
    rw [Json.parse, String.toList_append]
    rfl
  have hu : unknownKeys allowlist [("b", .null),
      ("$OR", .object [("name", .object [("zz", .number (.natural 1))]), ("a", .array []),
        ("$and", .object [("b", .bool true), ("c", .number (.natural 1))])]),
      ("metadata", .object [("d", .number (.natural 1))]),
      ("$and", .number (.natural 3))] = ["b", "a", "b", "c"] := by decide
  have h := (@parse_rejects_unknownKeys allowlist 65536 raw _ (by decide) hj (by simp)).1
  rw [hu] at h
  exact h (by simp)

end Filter

end SearchFilter
