import SearchFilter.Statement.Engine
import SearchFilter.Statement.Select
import SearchFilter.Table.Store

/-!
# Running search statements

The tables are the engine that the program runs on; what is proved of searches holds of any other
one too. The ids of the rows are selected for which the condition of a statement is true. A
statement is refused when it cannot be read, has too many levels or values or names an unknown table
or column, and it fails when a row holds JSON that is none, a key is no path or a pattern is too
long.
-/

namespace SearchFilter.Table

def entityOf? (table : String) : Option Entity :=
  Entity.all.find? fun e => Text.SameFolded e.table table

def affinity? (entity : Entity) (column : String) : Option Affinity :=
  if Text.SameFolded column "id" then some .integer
  else ((columnsOf entity).find? fun c => Text.SameFolded c.name column).map fun c => c.affinity

def Row.cell (r : Row) (column : String) : Value :=
  if Text.SameFolded column "id" then .integer r.id
  else (((r.cells.find? fun c => Text.SameFolded c.1 column).map Prod.snd).getD .null)

def columnsNamed {α : Type} : Sql.Operand α → List String
  | .column name => [name]
  | .walk name _ _ => [name]
  | .asText o => columnsNamed o
  | _ => []

/-- Whether every column that a condition names is one of the entity. -/
def namesKnown {α : Type} (entity : Entity) (c : Sql.Condition α) : Bool :=
  c.comparisons.all fun c =>
    ((c.left :: c.right).flatMap columnsNamed).all fun name => (affinity? entity name).isSome

/-- The value of an operand in a row, and its affinity. -/
def operandValue (entity : Entity) (r : Row) :
    Sql.Operand String → Except Refusal (Value × Affinity)
  | .column name => .ok (r.cell name, (affinity? entity name).getD .none)
  | .walk name keys takesText => do return (← (r.cell name).walk keys takesText, .none)
  | .asText o => do return ((← operandValue entity r o).1.toText, .text)
  | .value s => .ok (.text s, .none)
  | .null => .ok (.null, .none)
  | .number n => .ok (.integer n, .none)
  | .text s => .ok (.text s, .none)

/-- The truth of a comparison in a row. -/
def comparisonTruth (entity : Entity) (r : Row) (c : Sql.Comparison String) :
    Except Refusal Sql.Truth := do
  let left ← operandValue entity r c.left
  let right ← c.right.mapM (operandValue entity r)
  match c.relation, right with
  | .sign s, [v] => return compareBy s left v
  | .like, [v] =>
    match like? left.1 v.1 with
    | some t => return t
    | none => throw .patternTooLong
  | .isIn, vs => return among left (vs.map Prod.fst)
  | _, _ => .error .unreadable

/-- Whether a condition is true in a row. What can no longer change that is not looked at. -/
def conditionHolds (entity : Entity) (r : Row) : Sql.Condition String → Except Refusal Bool
  | .compare c => do return (← comparisonTruth entity r c) = .yes
  | .and a b => do
    if ← conditionHolds entity r a then conditionHolds entity r b else return false
  | .or a b => do
    if ← conditionHolds entity r a then return true else conditionHolds entity r b

def selectFrom (entity : Entity) (c : Sql.Condition String) :
    List Row → Except Refusal (List Int)
  | [] => .ok []
  | r :: rest => do
    let holds ← conditionHolds entity r c
    let ids ← selectFrom entity c rest
    return if holds then r.id :: ids else ids

/-- The levels of an operand: each step and each change of type is one. -/
def operandHeight {α : Type} : Sql.Operand α → Nat
  | .walk _ keys _ => keys.length + 1
  | .asText o => operandHeight o + 1
  | _ => 1

/-- The levels of a comparison. A single alternative counts for two. -/
def comparisonHeight {α : Type} (c : Sql.Comparison α) : Nat :=
  let right :=
    match c.relation, c.right with
    | .isIn, [_] => 2
    | _, os => (os.map operandHeight).foldl max 1
  max (operandHeight c.left) right + 1

/-- The levels of a condition. -/
def conditionHeight {α : Type} : Sql.Condition α → Nat
  | .compare c => comparisonHeight c
  | .and a b | .or a b => max (conditionHeight a) (conditionHeight b) + 1

def heightMax : Nat := 1000

def operandValues {α : Type} : Sql.Operand α → List α
  | .walk _ keys _ => keys
  | .asText o => operandValues o
  | .value v => [v]
  | _ => []

/-- The values in a condition, one for each bind. -/
def conditionValues {α : Type} (c : Sql.Condition α) : List α :=
  c.comparisons.flatMap fun c => (c.left :: c.right).flatMap operandValues

/-- The most values that a statement may have. -/
def valuesMax : Nat := 32766

def Store.search (store : Store) (q : BoundQuery) : Except Refusal (List Int) :=
  match Sql.Statement.read? q with
  | none => .error .unreadable
  | some s =>
    match entityOf? s.table with
    | none => .error .unreadable
    | some e =>
      if heightMax < conditionHeight s.condition then .error .tooDeep
      else if valuesMax < (conditionValues s.condition).length then .error .tooManyValues
      else if namesKnown e s.condition then selectFrom e s.condition (store.rows e).toList
      else .error .unknownColumn

/-- The tables as an engine. Why it gives up is not told. -/
def Store.engine (store : Store) : Engine := fun q =>
  (store.search q).mapError fun _ => .rejected

end SearchFilter.Table
