import SearchFilter.Proofs.Filter.Acceptance

/-!
# The places of a document

A document is gone through from the outside in and from the first entry to the last. The places on
the way are its entries and the members of the values of its fields, and each place may have a fault
of its own. Main statements: reading fails with the fault of the first place that has one, and the
keys that the check refuses are those of the entries among the columns that are not allowed.
-/

namespace SearchFilter

namespace Filter

inductive Place where
  | entry (scope : Scope) (key : String) (value : Json)
  /-- A member of the value of a field in a scope. -/
  | member (scope : Scope) (field key : String) (value : Json)

namespace Place

/-- What is wrong with the place itself, whatever stands before it, behind it or inside it. -/
def fault? (allowlist : Allowlist) : Place → Option FilterError
  | entry _ key value =>
    match Connective.ofKeyword? key with
    | some c =>
      match value with
      | .object [] => some (.invalid (.groupEmpty c.keyword))
      | .object (_ :: _) => none
      | _ => some (.invalid (.groupNotObject c.keyword))
    | none =>
      match value with
      | .object [] => some (.invalid (.noConditions key))
      | .object (_ :: _) | .string _ | .number _ => none
      | .array _ => some (.invalid (.arrayAsValue key))
      | .bool b => some (.invalid (.valueUnsupported key (Json.bool b).compact))
      | .null => some (.invalid (.valueUnsupported key Json.null.compact))
  | member scope field key value =>
    match Operator.ofToken? key with
    | some _ =>
      match value with
      | .bool b => some (.invalid (.conditionUnsupported (Json.bool b).compact))
      | .null => some (.invalid (.conditionUnsupported Json.null.compact))
      | _ => none
    | none =>
      if scope = .columns ∧ ¬ allowlist.HoldsJson field then some (.unknownOperator key) else none

/-- The field of an entry among the columns. -/
def column? : Place → Option String
  | entry .columns key _ => if Connective.ofKeyword? key = none then some key else none
  | _ => none

end Place

mutual

/-- The places of an entry: itself and those inside its value. Keys below a field are in its
JSON. -/
def placesOf (scope : Scope) (key : String) : Json → List Place
  | .object members =>
    .entry scope key (.object members) ::
      match Connective.ofKeyword? key with
      | some _ => placesOfEntries scope members
      | none => placesBelow scope key members
  | value => [.entry scope key value]

def placesOfEntries (scope : Scope) : List (String × Json) → List Place
  | [] => []
  | (key, value) :: rest => placesOf scope key value ++ placesOfEntries scope rest

/-- The places of the members of a field's value. Conditions are not gone into. -/
def placesBelow (scope : Scope) (field : String) : List (String × Json) → List Place
  | [] => []
  | (key, value) :: rest =>
    .member scope field key value ::
      ((match Operator.ofToken? key with
        | some _ => []
        | none => placesOf .json key value) ++ placesBelow scope field rest)

end

/-- The first fault of the places on a way. -/
def firstFault? (allowlist : Allowlist) (places : List Place) : Option FilterError :=
  places.findSome? (Place.fault? allowlist)

/-- What is read, barring a fault. -/
def barring {α : Type} (fault? : Option FilterError) (result : α) : Except FilterError α :=
  fault?.elim (.ok result) .error

/-- Reading two things one after the other: a fault of the first one hides those of the second. -/
theorem barring_or {α β γ : Type} (first second : Option FilterError) (a : α) (b : β)
    (f : α → β → γ) :
    barring (first.or second) (f a b) =
      (do return f (← barring first a) (← barring second b)) := by
  cases first <;> cases second <;> rfl

variable {allowlist : Allowlist} {scope : Scope} {key field : String}

@[simp] theorem firstFault?_nil : firstFault? allowlist [] = none := rfl

theorem firstFault?_append (a b : List Place) :
    firstFault? allowlist (a ++ b) = (firstFault? allowlist a).or (firstFault? allowlist b) :=
  List.findSome?_append

theorem firstFault?_cons (p : Place) (places : List Place) :
    firstFault? allowlist (p :: places) =
      (p.fault? allowlist).or (firstFault? allowlist places) := by
  rw [firstFault?, List.findSome?_cons]
  cases p.fault? allowlist <;> rfl

theorem below?_eq_none_iff :
    scope.below? allowlist field = none ↔ scope = .columns ∧ ¬ allowlist.HoldsJson field := by
  cases scope with
  | json => simp [Scope.below?]
  | columns => by_cases h : allowlist.HoldsJson field <;> simp [Scope.below?, h]

mutual

theorem readEntry_eq_barring (allowlist : Allowlist) (scope : Scope) (key : String) :
    (value : Json) → readEntry allowlist scope key value =
      barring (firstFault? allowlist (placesOf scope key value)) (nodesOf key value)
  | .object [] => by
    cases hk : Connective.ofKeyword? key <;>
      simp [readEntry, placesOf, firstFault?_cons, Place.fault?, hk, barring]
  | .object (m :: ms) => by
    rw [readEntry, placesOf, nodesOf, firstFault?_cons]
    cases hk : Connective.ofKeyword? key with
    | some c =>
      simp only [List.isEmpty_cons, Bool.false_eq_true, if_false, Place.fault?, hk,
        Option.none_or]
      rw [readEntries_eq_barring allowlist scope (m :: ms)]
      cases firstFault? allowlist (placesOfEntries scope (m :: ms)) <;> rfl
    | none =>
      simp only [List.isEmpty_cons, Bool.false_eq_true, if_false, Place.fault?, hk,
        Option.none_or]
      exact readConditions_eq_barring allowlist scope key (m :: ms)
  | .string s => by
    cases hk : Connective.ofKeyword? key <;>
      simp [readEntry, placesOf, nodesOf, firstFault?_cons, Place.fault?, hk, barring]
  | .number n => by
    cases hk : Connective.ofKeyword? key <;>
      simp [readEntry, placesOf, nodesOf, firstFault?_cons, Place.fault?, hk, barring]
  | .array items => by
    cases hk : Connective.ofKeyword? key <;>
      simp [readEntry, placesOf, firstFault?_cons, Place.fault?, hk, barring]
  | .bool b => by
    cases hk : Connective.ofKeyword? key <;>
      simp [readEntry, placesOf, firstFault?_cons, Place.fault?, hk, barring]
  | .null => by
    cases hk : Connective.ofKeyword? key <;>
      simp [readEntry, placesOf, firstFault?_cons, Place.fault?, hk, barring]

theorem readEntries_eq_barring (allowlist : Allowlist) (scope : Scope) :
    (members : List (String × Json)) → readEntries allowlist scope members =
      barring (firstFault? allowlist (placesOfEntries scope members)) (nodesOfEntries members)
  | [] => by rw [readEntries, placesOfEntries, nodesOfEntries, firstFault?_nil]; rfl
  | (key, value) :: rest => by
    rw [readEntries, placesOfEntries, nodesOfEntries, firstFault?_append, barring_or,
      readEntry_eq_barring allowlist scope key value, readEntries_eq_barring allowlist scope rest]

theorem readConditions_eq_barring (allowlist : Allowlist) (scope : Scope) (field : String) :
    (members : List (String × Json)) → readConditions allowlist scope field members =
      barring (firstFault? allowlist (placesBelow scope field members))
        (nodesBelow field members)
  | [] => by rw [readConditions, placesBelow, nodesBelow, firstFault?_nil]; rfl
  | (key, value) :: rest => by
    rw [readConditions, placesBelow, nodesBelow, firstFault?_cons, firstFault?_append,
      readConditions_eq_barring allowlist scope field rest]
    cases ho : Operator.ofToken? key with
    | some op =>
      cases value <;> cases firstFault? allowlist (placesBelow scope field rest) <;>
        simp [Place.fault?, ho, Condition.ofJson, barring, Except.map, bind, Except.bind, pure,
          Except.pure]
    | none =>
      rcases hb : scope.below? allowlist field with _ | below
      · have hs : scope = .columns ∧ ¬ allowlist.HoldsJson field := below?_eq_none_iff.mp hb
        simp only [Place.fault?, ho, if_pos hs]
        rfl
      · obtain ⟨rfl, hj⟩ := below?_eq_some_iff.mp hb
        have hs : ¬ (scope = .columns ∧ ¬ allowlist.HoldsJson field) := by
          rw [← below?_eq_none_iff, hb]
          simp
        simp only [Place.fault?, ho, if_neg hs, Option.none_or]
        rw [readEntry_eq_barring allowlist .json key value]
        cases firstFault? allowlist (placesOf .json key value) <;>
          cases firstFault? allowlist (placesBelow scope field rest) <;> rfl

end

/-- The fields of the entries among the columns, in the order of the document. -/
def columnKeys (members : List (String × Json)) : List String :=
  (placesOfEntries .columns members).filterMap Place.column?

/-- The keys among the columns that are neither keywords nor allowed. -/
def unknownKeys (allowlist : Allowlist) (members : List (String × Json)) : List String :=
  (columnKeys members).filter fun key => ¬ allowlist.Allows key

mutual

theorem filterMap_column?_placesOf_json (key : String) : (value : Json) →
    (placesOf .json key value).filterMap Place.column? = []
  | .object members => by
    rw [placesOf, List.filterMap_cons_none rfl]
    cases Connective.ofKeyword? key with
    | some c => exact filterMap_column?_placesOfEntries_json members
    | none => exact filterMap_column?_placesBelow .json key members
  | .string _ | .number _ | .array _ | .bool _ | .null => by simp [placesOf, Place.column?]

theorem filterMap_column?_placesOfEntries_json : (members : List (String × Json)) →
    (placesOfEntries .json members).filterMap Place.column? = []
  | [] => by rw [placesOfEntries, List.filterMap_nil]
  | (key, value) :: rest => by
    rw [placesOfEntries, List.filterMap_append, filterMap_column?_placesOf_json key value,
      filterMap_column?_placesOfEntries_json rest, List.append_nil]

theorem filterMap_column?_placesBelow (scope : Scope) (field : String) :
    (members : List (String × Json)) →
      (placesBelow scope field members).filterMap Place.column? = []
  | [] => by rw [placesBelow, List.filterMap_nil]
  | (key, value) :: rest => by
    rw [placesBelow, List.filterMap_cons_none rfl, List.filterMap_append,
      filterMap_column?_placesBelow scope field rest, List.append_nil]
    cases Operator.ofToken? key with
    | some op => rfl
    | none => exact filterMap_column?_placesOf_json key value

end

mutual

theorem strayBelow_eq_filter (allowlist : Allowlist) (key : String) : (value : Json) →
    strayBelow allowlist key value =
      ((placesOf .columns key value).filterMap Place.column?).filter
        fun key => ¬ allowlist.Allows key
  | .object members => by
    rw [strayBelow, placesOf]
    cases hk : Connective.ofKeyword? key with
    | some c =>
      rw [List.filterMap_cons_none (by simp [Place.column?, hk])]
      exact strayFields_eq_unknownKeys allowlist members
    | none =>
      rw [List.filterMap_cons_some (b := key) (by simp [Place.column?, hk])]
      rw [filterMap_column?_placesBelow]
      by_cases ha : allowlist.Allows key <;> simp [ha]
  | .string _ | .number _ | .array _ | .bool _ | .null => by
    cases hk : Connective.ofKeyword? key <;>
      by_cases ha : allowlist.Allows key <;> simp [strayBelow, placesOf, Place.column?, hk, ha]

theorem strayFields_eq_unknownKeys (allowlist : Allowlist) : (members : List (String × Json)) →
    strayFields allowlist members = unknownKeys allowlist members
  | [] => by
    rw [strayFields, unknownKeys, columnKeys, placesOfEntries, List.filterMap_nil, List.filter_nil]
  | (key, value) :: rest => by
    rw [strayFields, unknownKeys, columnKeys, placesOfEntries, List.filterMap_append,
      List.filter_append, strayBelow_eq_filter allowlist key value,
      strayFields_eq_unknownKeys allowlist rest, unknownKeys, columnKeys]

end

variable {members : List (String × Json)}

/-- Members without unknown keys and without faults have nodes. -/
theorem exists_ofMembers (hne : members ≠ []) (hu : unknownKeys allowlist members = [])
    (hf : firstFault? allowlist (placesOfEntries .columns members) = none) :
    ∃ f, ofMembers allowlist members = .ok f ∧ f.nodes = nodesOfEntries members := by
  have hr : readEntries allowlist .columns members = .ok (nodesOfEntries members) := by
    rw [readEntries_eq_barring, hf]
    rfl
  have hs : strayFields allowlist members = [] := by rw [strayFields_eq_unknownKeys, hu]
  have hn : nodesOfEntries members ≠ [] :=
    (admitted_of_readEntries members _ (fun _ => hs) hr).1 hne
  exact ⟨⟨_, hn⟩, ofMembers_eq_ok_iff.mpr ⟨hne, hs, hr⟩, rfl⟩

end Filter

theorem addAllNew_eq_append (l more : List String) :
    addAllNew l more = l ++ (more.filter fun s => s ∉ l).eraseDups := by
  unfold addAllNew
  induction more generalizing l with
  | nil => simp
  | cons s more ih =>
    rw [List.foldl_cons, ih, addNew]
    by_cases hs : s ∈ l
    · simp [hs]
    · have hf : (fun t => decide (t ∉ l ++ [s])) = fun t => !t == s && decide (t ∉ l) := by
        funext t
        by_cases ht : t = s <;> simp [ht]
      rw [if_neg hs, List.filter_cons_of_pos (by simpa using hs), List.eraseDups_cons,
        List.filter_filter, List.append_assoc, List.singleton_append, hf]

theorem addAllNew_nil (more : List String) : addAllNew [] more = more.eraseDups := by
  simp [addAllNew_eq_append]

end SearchFilter
