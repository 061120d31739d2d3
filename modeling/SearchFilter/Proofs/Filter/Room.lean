import Mathlib.Algebra.Ring.Nat
import SearchFilter.Proofs.Filter.Acceptance
import SearchFilter.Proofs.Json.Depth
import SearchFilter.Proofs.Json.Extent
import SearchFilter.Proofs.Statement.Indifference

/-!
# The room that comparisons take

A comparison is written as an entry of its own, the keys above it once for all the comparisons below
them. Main statement: in a document there is room for all its comparisons and, besides, for the keys
of any one of them; and no comparison has more keys than containers may be nested.
-/

namespace SearchFilter

namespace Json

/-- Names that differ are not all empty, so that each member but the first has room for a name. -/
theorem sum_extent_le {members : List (String × Json)} (h : (names members).Nodup) :
    (members.map fun m => 5 + extent m.2).sum ≤ extent (.object members) := by
  have hnone (ms : List (String × Json)) (hn : "" ∉ names ms) :
      (ms.map fun m => 5 + extent m.2).sum ≤ extentMembers ms := by
    induction ms with
    | nil => exact Nat.le_refl _
    | cons m rest ih =>
      obtain ⟨k, v⟩ := m
      simp only [names, List.map_cons, List.mem_cons, not_or] at hn
      have hk : k.length ≠ 0 := fun h => hn.1 (String.length_eq_zero_iff.mp h).symm
      have := ih hn.2
      rw [List.map_cons, List.sum_cons, extentMembers]
      dsimp only
      omega
  have hsome (ms : List (String × Json)) (hn : (names ms).Nodup) :
      (ms.map fun m => 5 + extent m.2).sum ≤ 1 + extentMembers ms := by
    induction ms with
    | nil => exact Nat.zero_le _
    | cons m rest ih =>
      obtain ⟨k, v⟩ := m
      simp only [names, List.map_cons, List.nodup_cons] at hn
      rw [List.map_cons, List.sum_cons, extentMembers]
      dsimp only
      by_cases hk : k = ""
      · subst hk
        have := hnone rest hn.1
        omega
      · have hk : k.length ≠ 0 := fun h => hk (String.length_eq_zero_iff.mp h)
        have := ih hn.2
        omega
  rw [extent]
  exact hsome members h

end Json

theorem Attribute.length_keys_under (base : List String) (field : String) :
    (under base field).keys.length = base.length := by
  cases base with
  | nil => rfl
  | cons column keys => simp [under]

namespace Leaf

/-- The number of values that a leaf is compared with. -/
def width (l : Leaf) : Nat := l.listLength?.getD 1

/-- The number of texts that are bound for a leaf. -/
def bindCount (l : Leaf) : Nat := l.left.keys.length + l.width

/-- The room of the entry that a leaf is written as: six characters, and two for each value past
the first. -/
def room (l : Leaf) : Nat := 6 + 2 * (l.width - 1)

def roomAll (ls : List Leaf) : Nat := (ls.map room).sum

@[simp] theorem roomAll_nil : roomAll [] = 0 := rfl

@[simp] theorem roomAll_cons (l : Leaf) (ls : List Leaf) :
    roomAll (l :: ls) = l.room + roomAll ls := rfl

@[simp] theorem roomAll_append (ls ms : List Leaf) :
    roomAll (ls ++ ms) = roomAll ls + roomAll ms := by
  simp [roomAll]

/-- The texts bound for leaves with at most so many keys, and the room of the leaves, both by the
number of the leaves and of the values past the first ones. -/
theorem exists_excess {d : Nat} {ls : List Leaf} (h : ∀ l ∈ ls, l.left.keys.length ≤ d) :
    ∃ excess, roomAll ls = 6 * ls.length + 2 * excess ∧
      (ls.map bindCount).sum ≤ ls.length * (d + 1) + excess := by
  induction ls with
  | nil => exact ⟨0, rfl, Nat.zero_le _⟩
  | cons l ls ih =>
    obtain ⟨excess, hr, hb⟩ := ih fun m hm => h m (List.mem_cons_of_mem _ hm)
    have hl := h l List.mem_cons_self
    refine ⟨l.width - 1 + excess, ?_, ?_⟩
    · rw [roomAll_cons, room, List.length_cons, hr]
      omega
    · rw [List.map_cons, List.sum_cons, bindCount, List.length_cons, Nat.succ_mul]
      omega

end Leaf

open Leaf (roomAll)

/-- Leaves at or below a path of `base` segments fit into `cost` characters, with the keys of any
one of them, and their keys go at most `depth` deeper. -/
structure Fits (base depth cost : Nat) (ls : List Leaf) : Prop where
  room_le : roomAll ls ≤ cost
  keys_room_le : ∀ l ∈ ls, roomAll ls + 5 * l.left.keys.length ≤ cost + 5 * base
  keys_le : ∀ l ∈ ls, l.left.keys.length ≤ base + depth

namespace Fits

variable {base depth cost : Nat} {ls ms : List Leaf}

theorem nil : Fits base depth cost [] where
  room_le := Nat.zero_le _
  keys_room_le := by simp
  keys_le := by simp

theorem single {l : Leaf} (hk : l.left.keys.length ≤ base) (hc : l.room ≤ cost) :
    Fits base depth cost [l] where
  room_le := by simpa using hc
  keys_room_le := by
    intro m hm
    rw [List.mem_singleton.mp hm, Leaf.roomAll_cons, Leaf.roomAll_nil]
    omega
  keys_le := by
    intro m hm
    rw [List.mem_singleton.mp hm]
    omega

theorem mono {depth' cost' : Nat} (h : Fits base depth cost ls) (hd : depth ≤ depth')
    (hc : cost ≤ cost') : Fits base depth' cost' ls where
  room_le := h.room_le.trans hc
  keys_room_le l hl := (h.keys_room_le l hl).trans (Nat.add_le_add_right hc _)
  keys_le l hl := (h.keys_le l hl).trans (Nat.add_le_add_left hd _)

theorem deeper (h : Fits (base + 1) depth cost ls) : Fits base (depth + 1) (cost + 5) ls where
  room_le := h.room_le.trans (Nat.le_add_right _ _)
  keys_room_le l hl := by
    have := h.keys_room_le l hl
    omega
  keys_le l hl := by
    have := h.keys_le l hl
    omega

theorem append {cost' : Nat} (h : Fits base depth cost ls) (h' : Fits base depth cost' ms) :
    Fits base depth (cost + cost') (ls ++ ms) where
  room_le := by
    rw [Leaf.roomAll_append]
    exact Nat.add_le_add h.room_le h'.room_le
  keys_room_le l hl := by
    have hls := h.room_le
    have hms := h'.room_le
    rw [Leaf.roomAll_append]
    rcases List.mem_append.mp hl with hl | hl
    · have := h.keys_room_le l hl
      omega
    · have := h'.keys_room_le l hl
      omega
  keys_le l hl := (List.mem_append.mp hl).elim (h.keys_le l) (h'.keys_le l)

end Fits

namespace Filter

open Json (Distinct Within extent)
open FilterNode (leavesAll)

theorem fits_equality (base : List String) (key : String) (value : Scalar) (depth : Nat)
    (v : Json) : Fits base.length depth (5 + extent v) (leavesAll base [.equality key value]) := by
  have hv := Json.extent_pos v
  refine Fits.single (l := ⟨.under base key, .equal value⟩)
    (Nat.le_of_eq (Attribute.length_keys_under base key)) ?_
  show 6 + 2 * 0 ≤ 5 + extent v
  omega

theorem fits_range (base : List String) (field : String) (op : Operator) {condition : Condition}
    {v : Json} (hc : Condition.ofJson v = .ok condition) (depth : Nat) :
    Fits (base.length + 1) depth (5 + extent v) (leavesAll base [.range field op condition]) := by
  have hv := Json.extent_pos v
  have hone : Leaf.room ⟨.under base field, .compare op condition⟩ ≤ 5 + extent v := by
    cases v with
    | array items =>
      cases hc
      have hi := Json.length_le_extentItems items
      cases op <;> simp only [Leaf.room, Leaf.width, Leaf.listLength?, Test.listLength?, extent,
        Option.getD_some, Option.getD_none] <;> omega
    | string s => cases hc; cases op <;> exact Nat.add_le_add_left hv 5
    | number n => cases hc; cases op <;> exact Nat.add_le_add_left hv 5
    | object members => cases hc; cases op <;> exact Nat.add_le_add_left hv 5
    | bool b => cases hc
    | null => cases hc
  exact Fits.single (by rw [Attribute.length_keys_under]; exact Nat.le_succ _) hone

mutual

theorem fits_nodesOf (base : List String) (key : String) : (v : Json) → {depth : Nat} →
    Distinct v → Within depth v →
      Fits base.length depth (5 + extent v) (leavesAll base (nodesOf key v))
  | .object members, depth => by
    intro hd hw
    obtain ⟨hn, heach⟩ : (Json.names members).Nodup ∧ ∀ m ∈ members, Distinct m.2 := by
      cases hd with
      | object nodup each => exact ⟨nodup, each⟩
    obtain ⟨d, rfl, hwithin⟩ : ∃ d, depth = d + 1 ∧ ∀ m ∈ members, Within d m.2 := by
      cases hw with
      | scalar hs => exact hs.elim
      | object each => exact ⟨_, rfl, each⟩
    have hsum := Json.sum_extent_le hn
    rw [nodesOf]
    cases Connective.ofKeyword? key with
    | some c =>
      rw [FilterNode.leavesAll_group]
      exact (fits_nodesOfEntries base members heach hwithin).mono (Nat.le_succ d) (by omega)
    | none =>
      have h := (fits_nodesBelow base key members heach hwithin).deeper
      exact h.mono (Nat.le_refl _) (by omega)
  | .string s, _ => fun _ _ => fits_equality base key (.text s) _ _
  | .number n, _ => fun _ _ => fits_equality base key (.number n) _ _
  | .array items, _ => fun _ _ => .nil
  | .bool b, _ => fun _ _ => .nil
  | .null, _ => fun _ _ => .nil

theorem fits_nodesOfEntries (base : List String) : (members : List (String × Json)) →
    {depth : Nat} → (∀ m ∈ members, Distinct m.2) → (∀ m ∈ members, Within depth m.2) →
      Fits base.length depth ((members.map fun m => 5 + extent m.2).sum)
        (leavesAll base (nodesOfEntries members))
  | [], _ => fun _ _ => .nil
  | (key, value) :: rest, depth => by
    intro hd hw
    rw [List.forall_mem_cons] at hd hw
    rw [nodesOfEntries, FilterNode.leavesAll_append, List.map_cons, List.sum_cons]
    exact (fits_nodesOf base key value hd.1 hw.1).append
      (fits_nodesOfEntries base rest hd.2 hw.2)

theorem fits_nodesBelow (base : List String) (field : String) :
    (members : List (String × Json)) → {depth : Nat} → (∀ m ∈ members, Distinct m.2) →
      (∀ m ∈ members, Within depth m.2) →
      Fits (base.length + 1) depth ((members.map fun m => 5 + extent m.2).sum)
        (leavesAll base (nodesBelow field members))
  | [], _ => fun _ _ => .nil
  | (key, value) :: rest, depth => by
    intro hd hw
    rw [List.forall_mem_cons] at hd hw
    rw [nodesBelow, FilterNode.leavesAll_append, List.map_cons, List.sum_cons]
    refine Fits.append ?_ (fits_nodesBelow base field rest hd.2 hw.2)
    split
    · exact fits_range base field _ ‹_› depth
    · exact .nil
    · have h := fits_nodesOf (base ++ [field]) key value hd.1 hw.1
      rw [List.length_append, List.length_singleton] at h
      rw [FilterNode.leavesAll_path]
      exact h

end

/-- A document has room for all its comparisons and for the keys of any one of them, and their keys
go no deeper than containers may. -/
theorem fits_of_parse {allowlist : Allowlist} {limit : Nat} {raw : String} {f : Filter}
    (h : parse allowlist limit raw = .ok f) :
    Fits 0 (Json.depthMax - 1) raw.utf8ByteSize f.leaves := by
  obtain ⟨-, members, hj, -, hs, hr⟩ := parse_eq_ok_iff.mp h
  obtain ⟨-, hn⟩ := (readEntries_iff_wellFormed members f.nodes).mp ⟨hr, fun _ => hs⟩
  obtain ⟨hnames, hd⟩ : (Json.names members).Nodup ∧ ∀ m ∈ members, Distinct m.2 := by
    cases Json.distinct_of_parse hj with
    | object nodup each => exact ⟨nodup, each⟩
  have hw : ∀ m ∈ members, Within (Json.depthMax - 1) m.2 := by
    have hw : Within (126 + 1) (.object members) := Json.within_of_parse hj
    cases hw with
    | scalar hs => exact hs.elim
    | object each => exact each
  rw [leaves, hn]
  exact (fits_nodesOfEntries [] members hd hw).mono (Nat.le_refl _)
    ((Json.sum_extent_le hnames).trans (Json.extent_le_of_parse hj))

end Filter

end SearchFilter
