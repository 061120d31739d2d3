import SearchFilter.Sql.Expression
import SearchFilter.Statement.Binding

/-!
# Reading search statements

A search statement selects the ids of a table's rows by a condition, in the order of the ids. It is
read with its binds in place.
-/

namespace SearchFilter.Sql

def keywords : List String :=
  ["SELECT", "FROM", "WHERE", "ORDER", "BY", "AND", "OR", "LIKE", "IN", "CAST", "AS", "TEXT",
    "NULL"]

def upper (s : String) : String := String.ofList (s.toList.map Char.toUpper)

/-- Keywords may be written in any case. -/
def capitalize : Token Unit → Token Unit
  | .word w => .word (if upper w ∈ keywords then upper w else w)
  | t => t

structure Statement where
  table : String
  condition : Condition String
deriving DecidableEq, Repr

/-- The tokens up to a final `ORDER BY id`. -/
def dropOrder? {α : Type} (tokens : List (Token α)) : Option (List (Token α)) :=
  match tokens.reverse with
  | .word id :: .word "BY" :: .word "ORDER" :: rest =>
    if Text.SameFolded id "id" then some rest.reverse else none
  | _ => none

def Statement.read? (q : BoundQuery) : Option Statement := do
  let tokens ← tokens? q.sql.toList
  let tokens ← Token.fill (tokens.map capitalize) q.binds
  match tokens with
  | .word "SELECT" :: .word id :: .word "FROM" :: .word table :: .word "WHERE" :: rest =>
    if Text.SameFolded id "id" then
      return ⟨table, ← Condition.ofTokens? (← dropOrder? rest)⟩
    else none
  | _ => none

end SearchFilter.Sql
