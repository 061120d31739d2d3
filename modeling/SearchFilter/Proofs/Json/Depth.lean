import SearchFilter.Proofs.Json.Names

/-!
# The depth of decoded values

The reader is allowed one level less in every container. Main statement: in a decoded value
containers are nested as deep as is allowed and no deeper.
-/

namespace SearchFilter.Json

/-- Containers are nested at most so deep in a value. -/
inductive Within : Nat → Json → Prop
  | scalar {depth : Nat} {v : Json} (isScalar : v.IsScalar) : Within depth v
  | array {depth : Nat} {items : List Json} (each : ∀ v ∈ items, Within depth v) :
      Within (depth + 1) (.array items)
  | object {depth : Nat} {members : List (String × Json)} (each : ∀ m ∈ members, Within depth m.2) :
      Within (depth + 1) (.object members)

theorem Within.setMember {depth : Nat} {name : String} {value : Json}
    {members : List (String × Json)} (hv : Within depth value)
    (h : Within (depth + 1) (.object members)) :
    Within (depth + 1) (.object (Json.setMember name value members)) := by
  cases h with
  | scalar hs => exact hs.elim
  | object each =>
    refine .object ?_
    intro m hm
    rcases mem_setMember hm with h | h
    · rw [h]
      exact hv
    · exact each m h

/-- Decoded values have no deeper containers than are allowed. -/
theorem within_of_parse {text : String} {v : Json} (h : parse text = .ok v) :
    Within depthMax v := by
  obtain ⟨rest, hv⟩ := exists_readValue_of_parse h
  exact readValue_induction (fun _ _ => .scalar) (fun _ _ => .array)
    (fun _ => .object (by simp)) (fun _ _ _ _ hv hm => hv.setMember hm) _ _ _ hv

end SearchFilter.Json
