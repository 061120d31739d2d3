import SearchFilter.Proofs.Engine.Content

/-!
# Engines that look into JSON

What is assumed of an engine that finds a text below keys of a column with JSON: the keys are
followed one after the other, and a text that starts with a dollar sign is a path, while every other
one is a label. What a path leads to is left open, and it may be none. Main statement: where the
keys are labels nothing fails, and members of these names lead to what is found.
-/

namespace SearchFilter

open Sql

/-- How an engine looks into the JSON in a column. -/
structure Lookup (Row J : Type) where
  /-- What the column holds in a row. -/
  root : Row → J
  /-- The members of an object with their names; what is no object has none. -/
  members : J → List (String × J)
  /-- The value that a key leads to, if there is one. -/
  follow : String → J → Except DatabaseFailure (Option J)
  /-- The text of a value, if it has one. -/
  text : J → Option String

/-- Whether the engine takes a key for a path. -/
def IsJsonPath (key : String) : Prop := key.toList.head? = some '$'

instance (key : String) : Decidable (IsJsonPath key) := inferInstanceAs (Decidable (_ = _))

namespace Lookup

variable {Row J : Type} (k : Lookup Row J)

/-- Follows keys one after the other. Where a key leads nowhere, the others are not looked at. -/
def followAll : List String → J → Except DatabaseFailure (Option J)
  | [], v => .ok (some v)
  | key :: keys, v => do
    match ← k.follow key v with
    | none => return none
    | some w => followAll keys w

/-- Whether members of these names, one in the value of the other, lead from a value to another. -/
def Leads : List String → J → J → Prop
  | [], v, w => w = v
  | key :: keys, v, w => ∃ u, (key, u) ∈ k.members v ∧ Leads keys u w

/-- A label leads to a member of its name or nowhere, and never fails. -/
def TakesForLabel (key : String) : Prop :=
  ∀ v, ∃ found, k.follow key v = .ok found ∧ ∀ w ∈ found, (key, w) ∈ k.members v

theorem exists_followAll {keys : List String} (h : ∀ key ∈ keys, k.TakesForLabel key) (v : J) :
    ∃ found, k.followAll keys v = .ok found ∧ ∀ w ∈ found, k.Leads keys v w := by
  induction keys generalizing v with
  | nil => exact ⟨some v, rfl, fun w hw => (Option.mem_some.mp hw).symm⟩
  | cons key keys ih =>
    rw [List.forall_mem_cons] at h
    obtain ⟨found, hf, hm⟩ := h.1 v
    cases found with
    | none =>
      refine ⟨none, ?_, by simp⟩
      rw [followAll, hf]
      rfl
    | some u =>
      obtain ⟨behind, hb, hw⟩ := ih h.2 u
      refine ⟨behind, ?_, fun w hmem => ⟨u, hm u rfl, hw w hmem⟩⟩
      rw [followAll, hf]
      exact hb

end Lookup

/-- The comparison of the text below keys of the metadata. -/
def keyedComparison (keys : List String) (s : String) : Comparison String :=
  ⟨.asText (.walk "metadata" keys true), .sign .equal, [.value s]⟩

/-- The engine finds a text below keys of the metadata by looking the keys up in every row. -/
structure Engine.LooksUp {Row J : Type} (engine : Engine) (e : Entity) (content : Content Row)
    (k : Lookup Row J) (keys : List String) (s : String) : Prop where
  /-- The statement fails only where a lookup fails. -/
  answers : ∀ q, Statement.read? q = some ⟨e.table, .compare (keyedComparison keys s)⟩ →
    (∀ r ∈ content.rows, ∃ found, k.followAll keys (k.root r) = .ok found) →
      ∃ ids, engine q = .ok ids
  decides : ∀ r ∈ content.rows, ∀ found, k.followAll keys (k.root r) = .ok found →
    (content.truth r (keyedComparison keys s) = .yes ↔ ∃ w ∈ found, k.text w = some s)
  labels : ∀ key ∈ keys, ¬ IsJsonPath key → k.TakesForLabel key

end SearchFilter
