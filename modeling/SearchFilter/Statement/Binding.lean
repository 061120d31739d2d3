import SearchFilter.Predicate.Basic
import SearchFilter.Statement.Error
import SearchFilter.Statement.Piece

/-!
# Binding predicates

A bound query has one placeholder of its dialect for every text it binds: a list takes one for each
of its items, and an empty list is written `NULL`. A value is typed by the last column named before
it; values behind `LIKE` and within walks into JSON are text.
-/

namespace SearchFilter

structure BoundQuery where
  sql : String
  binds : List String
deriving DecidableEq, Repr

namespace Binding

structure Progress where
  /-- The type of the column whose value is still to come. -/
  pending : Option ColumnType
  /-- The parameters that are not bound yet. -/
  supply : List Parameter
  binds : Array String
  sql : String

/-- The placeholders of a parameter, the first of which has the index after `bound`. -/
def render (backend : Backend) (type : ColumnType) (bound : Nat) (p : Parameter) : String :=
  match p.values.length with
  | 0 => "NULL"
  | n => ", ".intercalate
      ((List.range n).map fun i => backend.typedPlaceholder (bound + i + 1) type)

/-- Binds the next parameter and yields its placeholders. -/
def Progress.take (backend : Backend) (type : ColumnType) (p : Progress) :
    Except PredicateFault (String × Progress) :=
  match p.supply with
  | [] => .error .outOfParameters
  | parameter :: supply =>
    .ok (render backend type p.binds.size parameter,
      { p with supply, binds := p.binds ++ parameter.values })

/-- Binds the steps of a walk behind what is written of it. -/
def Progress.takeSteps (backend : Backend) : (hops : Nat) → (written : String) → Progress →
    Except PredicateFault (String × Progress)
  | 0, written, p => do
    let (placeholder, p) ← p.take backend .text
    return (written ++ " ->> " ++ placeholder, p)
  | hops + 1, written, p => do
    let (placeholder, p) ← p.take backend .text
    takeSteps backend hops (written ++ " -> " ++ placeholder) p

/-- The type awaited after a word: connectives and `IN` leave it as it is, `LIKE` wants text, any
other word is taken for a column. -/
def pendingAfter (columns : Allowlist) (pending : Option ColumnType) (word : String) :
    Option ColumnType :=
  if word = "LIKE" then none
  else if word = "AND" ∨ word = "OR" ∨ word = "IN" then pending
  else some (columns.columnType word)

def step (backend : Backend) (columns : Allowlist) (p : Progress) :
    Piece → Except PredicateFault Progress
  | .placeholder => do
    let (placeholder, q) ← p.take backend (p.pending.getD .text)
    return { q with pending := none, sql := q.sql ++ placeholder }
  | .walk column hops => do
    let (path, q) ← p.takeSteps backend hops (String.ofList column)
    return { q with pending := none, sql := q.sql ++ backend.jsonText path }
  | .word letters =>
    let word := String.ofList letters
    .ok { p with pending := pendingAfter columns p.pending word, sql := p.sql ++ word }
  | .other c => .ok { p with sql := p.sql.push c }

end Binding

/-- Binds a predicate for a backend, values being typed by the columns of the allowlist. -/
def Predicate.bind (backend : Backend) (columns : Allowlist) (p : Predicate) :
    Except PredicateFault BoundQuery :=
  if p.placeholderCount ≠ p.parameters.length then
    .error (.countMismatch p.placeholderCount p.parameters.length)
  else do
    let done ← (Piece.ofText p.text).foldlM (Binding.step backend columns)
      { pending := none, supply := p.parameters, binds := #[], sql := "" }
    return ⟨done.sql, done.binds.toList⟩

/-- Binds a predicate with every column taken for text. -/
def Predicate.bindUntyped (backend : Backend) (p : Predicate) : Except PredicateFault BoundQuery :=
  p.bind backend Allowlist.empty

end SearchFilter
