import Mathlib.Tactic.SplitIfs
import SearchFilter.Json.Reader
import SearchFilter.Proofs.Except

/-!
# Induction on decoded values

Every value comes out of the reader, which puts containers together one part at a time and is
allowed one level less in each. Main statement: what holds of what is no container and is kept when
a part is put to a container holds of every decoded value.
-/

namespace SearchFilter.Json

/-- Whether a value is no container. -/
def IsScalar : Json → Prop
  | .array _ | .object _ => False
  | _ => True

theorem isScalar_of_readScalar {cs rest : List Char} {v : Json}
    (h : readScalar cs = .ok (v, rest)) : v.IsScalar := by
  cases cs with
  | nil => cases h
  | cons c cs =>
    rw [readScalar] at h
    split_ifs at h
    all_goals first
      | cases h
      | obtain ⟨_, -, he⟩ := map_eq_ok_iff.mp h
        cases he
        trivial

section Items

variable {α κ : Type} {item : List Char → Reading α} {name : List Char → Reading κ}
  {put : κ → α → List (κ × α) → List (κ × α)}

theorem forall_mem_of_readItems {P : α → Prop}
    (hi : ∀ cs v rest, item cs = .ok (v, rest) → P v) {bound : Nat} {read items : List α}
    {cs rest : List Char} (hr : ∀ v ∈ read, P v)
    (h : readItems item bound read cs = .ok (items, rest)) : ∀ v ∈ items, P v := by
  induction bound generalizing read cs with
  | zero => cases h
  | succ bound ih =>
    rw [readItems] at h
    obtain ⟨⟨v, cs'⟩, hv, h⟩ := bind_eq_ok_iff.mp h
    have hread : ∀ w ∈ v :: read, P w := List.forall_mem_cons.mpr ⟨hi _ _ _ hv, hr⟩
    dsimp only at h
    split at h
    · cases h
    · cases h
      simpa [or_comm] using hread
    · split at h
      · cases h
      · cases h
      · exact ih hread h
    · cases h

/-- What is kept by putting a member that is read holds of all the members together. -/
theorem inv_of_readMembers {P : α → Prop} {I : List (κ × α) → Prop}
    (hi : ∀ cs v rest, item cs = .ok (v, rest) → P v)
    (hput : ∀ k v ms, P v → I ms → I (put k v ms)) {bound : Nat} {read members : List (κ × α)}
    {cs rest : List Char} (hr : I read)
    (h : readMembers name item put bound read cs = .ok (members, rest)) : I members := by
  induction bound generalizing read cs with
  | zero => cases h
  | succ bound ih =>
    rw [readMembers] at h
    obtain ⟨⟨k, cs'⟩, -, h⟩ := bind_eq_ok_iff.mp h
    obtain ⟨⟨v, cs''⟩, hv, h⟩ := bind_eq_ok_iff.mp h
    have hread : I (put k v read) := hput k v read (hi _ _ _ hv) hr
    dsimp only at h
    split at h
    · cases h
    · cases h
      exact hread
    · split at h
      · cases h
      · cases h
      · exact ih hread h
    · cases h

end Items

/-- Induction on what is read with containers nested at most so deep. -/
theorem readValue_induction {P : Nat → Json → Prop}
    (scalar : ∀ depth v, v.IsScalar → P depth v)
    (array : ∀ depth items, (∀ v ∈ items, P depth v) → P (depth + 1) (.array items))
    (empty : ∀ depth, P (depth + 1) (.object []))
    (member : ∀ depth k v members, P depth v → P (depth + 1) (.object members) →
      P (depth + 1) (.object (setMember k v members)))
    {depth : Nat} : ∀ cs v rest, readValue depth cs = .ok (v, rest) → P depth v := by
  induction depth with
  | zero =>
    intro cs v rest h
    unfold readValue at h
    split at h
    · cases h
    · cases h
    · exact scalar 0 v (isScalar_of_readScalar h)
  | succ depth ih =>
    intro cs v rest h
    unfold readValue at h
    split at h
    · obtain ⟨⟨items, _⟩, hl, he⟩ := map_eq_ok_iff.mp h
      cases he
      unfold readList at hl
      split at hl
      · cases hl
      · cases hl
        exact array depth [] (by simp)
      · exact array depth items (forall_mem_of_readItems ih (by simp) hl)
    · obtain ⟨⟨members, _⟩, ho, he⟩ := map_eq_ok_iff.mp h
      cases he
      unfold readObject at ho
      split at ho
      · cases ho
      · cases ho
        exact empty depth
      · let I (ms : List (String × Json)) : Prop := P (depth + 1) (.object ms)
        have hput : ∀ k v ms, P depth v → I ms → I (setMember k v ms) := member depth
        exact inv_of_readMembers ih hput (empty depth) ho
    · exact scalar (depth + 1) v (isScalar_of_readScalar h)

theorem exists_readValue_of_parse {text : String} {v : Json} (h : parse text = .ok v) :
    ∃ rest, readValue depthMax text.toList = .ok (v, rest) := by
  have hr : readText text.toList = .ok v := mapError_eq_ok_iff.mp h
  rw [readText] at hr
  obtain ⟨⟨w, rest⟩, hv, hr⟩ := bind_eq_ok_iff.mp hr
  obtain ⟨_, -, hr⟩ := bind_eq_ok_iff.mp hr
  cases hr
  exact ⟨rest, hv⟩

end SearchFilter.Json
