import SearchFilter.Proofs.Filter.Places
import SearchFilter.Schema.Allowlist

/-!
# Allowlists that are extended

An allowlist starts from its fields and is extended by JSON fields and by types, in any order. Types
are recorded by what the allowlist holds at the time. Main statement: what it holds in the end
depends only on the JSON fields and on the types that were given, each in their order.
-/

namespace SearchFilter

theorem addAllNew_append (l a b : List String) :
    addAllNew l (a ++ b) = addAllNew (addAllNew l a) b :=
  List.foldl_append

namespace Allowlist

theorem lookup_singleton_of_ne {f g : String} (h : f ≠ g) (t : ColumnType) :
    [(g, t)].lookup f = none := by
  rw [List.lookup_cons, beq_eq_false_iff_ne.mpr h]
  exact List.lookup_nil

/-- What an allowlist is extended by. -/
inductive Extension where
  | json (fields : List String)
  | types (entries : List (String × ColumnType))

namespace Extension

def jsonFields : Extension → List String
  | json fields => fields
  | types _ => []

def entries : Extension → List (String × ColumnType)
  | json _ => []
  | types entries => entries

end Extension

def extend (a : Allowlist) : Extension → Allowlist
  | .json fields => a.withJson fields
  | .types entries => a.withTypes entries

/-- The allowlist of fields with its extensions, one after the other. -/
def extended (fields : List String) (steps : List Extension) : Allowlist :=
  steps.foldl extend (ofFields fields)

/-- The allowlist has the fields of `own` and those of `js`, which hold JSON. Of the others, those
of `own` have the types of `ts`. -/
structure Holds (own js : List String) (ts : List (String × ColumnType)) (a : Allowlist) :
    Prop where
  fields_eq : a.fields = (own ++ js).eraseDups
  holdsJson_iff : ∀ f, a.HoldsJson f ↔ f ∈ js
  lookup_eq : ∀ f ∈ own, f ∉ js → a.types.lookup f = ts.lookup f
  lookup_eq_none : ∀ f, f ∉ own → f ∉ js → a.types.lookup f = none

namespace Holds

variable {own js : List String} {ts : List (String × ColumnType)} {a : Allowlist}

theorem allows_iff (h : Holds own js ts a) (f : String) : a.Allows f ↔ f ∈ own ∨ f ∈ js := by
  rw [Allows, h.fields_eq, List.mem_eraseDups, List.mem_append]

theorem columnType_eq (h : Holds own js ts a) (f : String) :
    a.columnType f = if f ∈ js then .json
      else if f ∈ own then (ts.lookup f).getD .text else .text := by
  rw [columnType]
  by_cases hj : f ∈ js
  · rw [if_pos ((h.holdsJson_iff f).mpr hj), if_pos hj]
  rw [if_neg (mt (h.holdsJson_iff f).mp hj), if_neg hj]
  by_cases ho : f ∈ own
  · rw [if_pos ho, h.lookup_eq f ho hj]
  · rw [if_neg ho, h.lookup_eq_none f ho hj]
    rfl

theorem ofFields (own : List String) : Holds own [] [] (ofFields own) where
  fields_eq := by rw [List.append_nil]; exact addAllNew_nil own
  holdsJson_iff f := Iff.rfl
  lookup_eq f _ _ := rfl
  lookup_eq_none f _ _ := rfl

theorem withJson (h : Holds own js ts a) (fields : List String) :
    Holds own (js ++ fields) ts (a.withJson fields) where
  fields_eq := by
    have hf : a.fields = addAllNew [] (own ++ js) := h.fields_eq.trans (addAllNew_nil _).symm
    rw [← List.append_assoc, ← addAllNew_nil, addAllNew_append, ← hf]
    rfl
  holdsJson_iff f := by rw [holdsJson_withJson, h.holdsJson_iff, List.mem_append]
  lookup_eq f ho hj := h.lookup_eq f ho fun hm => hj (List.mem_append_left _ hm)
  lookup_eq_none f ho hj := h.lookup_eq_none f ho fun hm => hj (List.mem_append_left _ hm)

/-- An entry counts as long as none of its field was recorded before, also if that was recorded as
text. -/
theorem recordType (h : Holds own js ts a) (entry : String × ColumnType) :
    Holds own js (ts ++ [entry]) (a.recordType entry) where
  fields_eq := by rw [fields_recordType, h.fields_eq]
  holdsJson_iff f := by rw [HoldsJson, jsonFields_recordType]; exact h.holdsJson_iff f
  lookup_eq f ho hj := by
    obtain ⟨g, t⟩ := entry
    have ha : a.Allows f := (h.allows_iff f).mpr (.inl ho)
    have hc : a.columnType f = (a.types.lookup f).getD .text :=
      if_neg (mt (h.holdsJson_iff f).mp hj)
    rw [List.lookup_append, ← h.lookup_eq f ho hj, Allowlist.recordType]
    by_cases hg : f = g
    · subst hg
      by_cases ht : a.columnType f = .text
      · rw [if_pos ⟨ha, ht⟩, List.lookup_append]
      · rw [if_neg fun hn => ht hn.2]
        cases hl : a.types.lookup f with
        | none =>
          rw [hl] at hc
          exact absurd hc ht
        | some u => rfl
    · rw [lookup_singleton_of_ne hg, Option.or_none]
      split
      · rw [List.lookup_append, lookup_singleton_of_ne hg, Option.or_none]
      · rfl
  lookup_eq_none f ho hj := by
    obtain ⟨g, t⟩ := entry
    have ha : ¬ a.Allows f := fun hn => ((h.allows_iff f).mp hn).elim ho hj
    rw [Allowlist.recordType]
    split
    · rename_i hg
      have hne : f ≠ g := by
        rintro rfl
        exact ha hg.1
      rw [List.lookup_append, h.lookup_eq_none f ho hj, lookup_singleton_of_ne hne, Option.or_none]
    · exact h.lookup_eq_none f ho hj

theorem withTypes (h : Holds own js ts a) (entries : List (String × ColumnType)) :
    Holds own js (ts ++ entries) (a.withTypes entries) := by
  induction entries generalizing ts a with
  | nil => simpa [Allowlist.withTypes] using h
  | cons entry entries ih =>
    have := ih (h.recordType entry)
    rwa [List.append_assoc] at this

theorem extend (h : Holds own js ts a) (step : Extension) :
    Holds own (js ++ step.jsonFields) (ts ++ step.entries) (a.extend step) := by
  cases step with
  | json fields =>
    rw [Extension.entries, List.append_nil]
    exact h.withJson fields
  | types entries =>
    rw [Extension.jsonFields, List.append_nil]
    exact h.withTypes entries

theorem foldl_extend (h : Holds own js ts a) (steps : List Extension) :
    Holds own (js ++ steps.flatMap Extension.jsonFields) (ts ++ steps.flatMap Extension.entries)
      (steps.foldl Allowlist.extend a) := by
  induction steps generalizing js ts a with
  | nil => simpa using h
  | cons step steps ih =>
    have := ih (h.extend step)
    rwa [List.append_assoc, List.append_assoc] at this

end Holds

theorem holds_extended (own : List String) (steps : List Extension) :
    Holds own (steps.flatMap Extension.jsonFields) (steps.flatMap Extension.entries)
      (extended own steps) :=
  (Holds.ofFields own).foldl_extend steps

/-- Whether nothing that is asked of two allowlists tells them apart. -/
structure Agree (a b : Allowlist) : Prop where
  fields_eq : a.fields = b.fields
  allows_iff : ∀ f, a.Allows f ↔ b.Allows f
  holdsJson_iff : ∀ f, a.HoldsJson f ↔ b.HoldsJson f
  columnType_eq : ∀ f, a.columnType f = b.columnType f

/-- What was given in the same order in all makes the same allowlist. -/
theorem Holds.agree {own js : List String} {ts : List (String × ColumnType)} {a b : Allowlist}
    (ha : Holds own js ts a) (hb : Holds own js ts b) : Agree a b where
  fields_eq := ha.fields_eq.trans hb.fields_eq.symm
  allows_iff f := (ha.allows_iff f).trans (hb.allows_iff f).symm
  holdsJson_iff f := (ha.holdsJson_iff f).trans (hb.holdsJson_iff f).symm
  columnType_eq f := (ha.columnType_eq f).trans (hb.columnType_eq f).symm

/-- An allowlist that was extended has its own fields and the JSON fields, each where it first
occurs. A field that does not hold JSON has the type that was given for it first, if it is one of
the own fields, and is text if not. So types let no field in, and a step of types may change places
with one of JSON fields. -/
theorem extended_holds (own : List String) (steps : List Extension) :
    let a := extended own steps
    let js := steps.flatMap Extension.jsonFields
    let ts := steps.flatMap Extension.entries
    a.fields = (own ++ js).eraseDups ∧
    (∀ f, a.Allows f ↔ f ∈ a.fields) ∧
    (∀ f, a.HoldsJson f ↔ f ∈ js) ∧
    (∀ f, a.HoldsJson f → a.Allows f) ∧
    (∀ f, a.columnType f = if f ∈ js then .json
      else if f ∈ own then (ts.lookup f).getD .text else .text) ∧
    ∀ before after entries fields,
      (∀ f, (extended own (before ++ .types entries :: after)).Allows f ↔
        (extended own (before ++ after)).Allows f) ∧
      Agree (extended own (before ++ .json fields :: .types entries :: after))
        (extended own (before ++ .types entries :: .json fields :: after)) := by
  intro a js ts
  have h : Holds own js ts a := holds_extended own steps
  refine ⟨h.fields_eq, fun f => Iff.rfl, h.holdsJson_iff, ?_, h.columnType_eq, ?_⟩
  · intro f hf
    exact (h.allows_iff f).mpr (.inr ((h.holdsJson_iff f).mp hf))
  · intro before after entries fields
    constructor
    · intro f
      have ht := holds_extended own (before ++ .types entries :: after)
      rw [ht.allows_iff, (holds_extended own (before ++ after)).allows_iff]
      simp [Extension.jsonFields]
    · have hj := holds_extended own (before ++ .json fields :: .types entries :: after)
      have ht := holds_extended own (before ++ .types entries :: .json fields :: after)
      simp only [List.flatMap_append, List.flatMap_cons, Extension.jsonFields, Extension.entries,
        List.nil_append] at hj ht
      exact hj.agree ht

/-- Text that was given for a field is the first type given, although the field was text before. A
field that comes in later as JSON gets none of the types given for it. -/
theorem extended_holds_text_first :
    let steps : List Extension :=
      [.types [("a", .text), ("b", .date)], .json ["b", "b"], .types [("a", .integer)]]
    let a := extended ["a", "a"] steps
    a.fields = ["a", "b"] ∧ a.columnType "a" = .text ∧ a.columnType "b" = .json := by
  intro steps a
  obtain ⟨hf, -, -, -, hc, -⟩ := extended_holds ["a", "a"] steps
  refine ⟨hf.trans (by decide), (hc "a").trans (by decide), (hc "b").trans (by decide)⟩

end Allowlist

end SearchFilter
