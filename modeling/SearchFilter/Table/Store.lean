import SearchFilter.Table.JsonPath
import SearchFilter.Table.Schema

/-!
# Stored rows

A table holds rows in ascending order of their ids, no two alike. A new row takes the id after the
greatest one unless it brings its own.
-/

namespace SearchFilter.Table

structure Row where
  id : Int
  cells : List (String × Value)
deriving DecidableEq, Repr

structure Rows where
  toList : List Row
  ascending : toList.Pairwise fun a b => a.id < b.id

namespace Rows

def empty : Rows := ⟨[], .nil⟩

def placeList (r : Row) : List Row → List Row
  | [] => [r]
  | a :: l => if r.id < a.id then r :: a :: l else a :: placeList r l

theorem mem_placeList {r a : Row} {l : List Row} : a ∈ placeList r l ↔ a = r ∨ a ∈ l := by
  induction l with
  | nil => simp [placeList]
  | cons b l ih =>
    unfold placeList
    split
    · simp
    · simp only [List.mem_cons, ih]
      grind

theorem pairwise_placeList {r : Row} {l : List Row} (h : l.Pairwise fun a b => a.id < b.id)
    (hr : ∀ a ∈ l, a.id ≠ r.id) : (placeList r l).Pairwise fun a b => a.id < b.id := by
  induction l with
  | nil => simp [placeList]
  | cons b l ih =>
    rw [List.pairwise_cons] at h
    unfold placeList
    split
    · rename_i hlt
      refine List.pairwise_cons.2 ⟨fun a ha => ?_, List.pairwise_cons.2 h⟩
      rcases List.mem_cons.1 ha with rfl | ha
      · exact hlt
      · exact Int.lt_trans hlt (h.1 a ha)
    · rename_i hle
      refine List.pairwise_cons.2 ⟨fun a ha => ?_, ih h.2 fun a ha => hr a (by simp [ha])⟩
      rcases mem_placeList.1 ha with rfl | ha
      · have := hr b (by simp)
        omega
      · exact h.1 a ha

/-- Adds a row, unless its id is taken. -/
def add? (rows : Rows) (r : Row) : Option Rows :=
  if h : ∀ a ∈ rows.toList, a.id ≠ r.id then
    some ⟨placeList r rows.toList, pairwise_placeList rows.ascending h⟩
  else none

def nextId (rows : Rows) : Int := rows.toList.foldl (fun n r => max n r.id) 0 + 1

end Rows

/-- The tables of all entities, and the moment at which rows are stored. -/
structure Store where
  moment : String
  rows : Entity → Rows

namespace Store

def empty (moment : String) : Store := ⟨moment, fun _ => .empty⟩

/-- The cell of a column of a new row. A required cell must not be left without a value, and a
reference must be an id of its entity. -/
def cell? (store : Store) (given : List (String × Value)) (c : Column) :
    Option (String × Value) := do
  let v := match given.lookup c.name, c.default with
    | some v, _ => v.store c.affinity
    | none, .value v => v
    | none, .moment => .text store.moment
  if c.required ∧ v = .null then none
  else
    match c.references, v with
    | none, _ => some (c.name, v)
    | some _, .null => some (c.name, v)
    | some e, .integer n =>
      if (store.rows e).toList.any fun r => r.id = n then some (c.name, v) else none
    | some _, _ => none

/-- Whether all given cells belong to columns of the entity. -/
def knows (entity : Entity) (given : List (String × Value)) : Bool :=
  given.all fun (name, _) => name = "id" || (columnsOf entity).any fun c => c.name = name

/-- Stores a row of an entity and yields its id. -/
def insert? (store : Store) (entity : Entity) (given : List (String × Value)) :
    Option (Int × Store) := do
  let rows := store.rows entity
  let id ← match (given.lookup "id").map (Value.store .integer) with
    | none | some .null => some rows.nextId
    | some (.integer n) => some n
    | some _ => none
  if knows entity given then
    let cells ← (columnsOf entity).mapM (store.cell? given)
    let rows ← rows.add? ⟨id, cells⟩
    return (id, { store with rows := fun e => if e = entity then rows else store.rows e })
  else none

end Store

end SearchFilter.Table
