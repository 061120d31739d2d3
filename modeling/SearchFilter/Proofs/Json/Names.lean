import SearchFilter.Proofs.Json.Decoded

/-!
# The names of decoded objects

A name that is written twice in an object is kept once. Main statement: in a decoded value the names
of every object are distinct, however deep the object lies.
-/

namespace SearchFilter.Json

/-- Every object in the value has distinct names. -/
inductive Distinct : Json → Prop
  | null : Distinct .null
  | bool (b : Bool) : Distinct (.bool b)
  | number (n : Number) : Distinct (.number n)
  | string (s : String) : Distinct (.string s)
  | array {items : List Json} (each : ∀ v ∈ items, Distinct v) : Distinct (.array items)
  | object {members : List (String × Json)} (nodup : (names members).Nodup)
      (each : ∀ m ∈ members, Distinct m.2) : Distinct (.object members)

theorem mem_setMember {name : String} {value : Json} {members : List (String × Json)}
    {m : String × Json} (h : m ∈ setMember name value members) : m.2 = value ∨ m ∈ members := by
  induction members with
  | nil =>
    rw [setMember, List.mem_singleton] at h
    rw [h]
    exact .inl rfl
  | cons first rest ih =>
    obtain ⟨k, v⟩ := first
    rw [setMember] at h
    split at h
    · rcases List.mem_cons.mp h with rfl | h
      · exact .inl rfl
      · exact .inr (List.mem_cons_of_mem _ h)
    · rcases List.mem_cons.mp h with rfl | h
      · exact .inr List.mem_cons_self
      · rcases ih h with h | h
        · exact .inl h
        · exact .inr (List.mem_cons_of_mem _ h)

theorem Distinct.setMember {name : String} {value : Json} {members : List (String × Json)}
    (hv : value.Distinct) (h : (Json.object members).Distinct) :
    (Json.object (Json.setMember name value members)).Distinct := by
  cases h with
  | object nodup each =>
    refine .object (nodup_names_setMember nodup) ?_
    intro m hm
    rcases mem_setMember hm with h | h
    · rw [h]
      exact hv
    · exact each m h

theorem distinct_of_isScalar {v : Json} (h : v.IsScalar) : v.Distinct := by
  cases v with
  | null => exact .null
  | bool b => exact .bool b
  | number n => exact .number n
  | string s => exact .string s
  | array items => exact h.elim
  | object members => exact h.elim

/-- Decoded values have distinct names in all their objects. -/
theorem distinct_of_parse {text : String} {v : Json} (h : parse text = .ok v) : v.Distinct := by
  obtain ⟨rest, hv⟩ := exists_readValue_of_parse h
  exact readValue_induction (P := fun _ v => v.Distinct) (fun _ _ => distinct_of_isScalar)
    (fun _ _ => .array) (fun _ => .object List.nodup_nil (by simp))
    (fun _ _ _ _ hv hm => hv.setMember hm) _ _ _ hv

end SearchFilter.Json
