/-!
# Predicates

The condition of a search as a text with placeholders, and the parameters that they stand for, in
the order of the placeholders.
-/

namespace SearchFilter

/-- What a placeholder stands for: one text, or the texts of a list of alternatives. -/
inductive Parameter where
  | text (s : String)
  | list (items : List String)
deriving DecidableEq, Repr

namespace Parameter

/-- The texts that are bound for the parameter. -/
def values : Parameter → List String
  | text s => [s]
  | list items => items

end Parameter

structure Predicate where
  text : String
  parameters : List Parameter
deriving DecidableEq, Repr

def placeholders (cs : List Char) : Nat := cs.count '?'

def Predicate.placeholderCount (p : Predicate) : Nat := placeholders p.text.toList

end SearchFilter
