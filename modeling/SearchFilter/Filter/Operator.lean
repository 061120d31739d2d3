import SearchFilter.Filter.Error
import SearchFilter.Text.Letter

/-!
# Operators and connectives

A field is compared by one of six operators, each with a token in filters and a symbol in
predicates. Tokens are matched as they are written; the two connectives in any case.
-/

namespace SearchFilter

inductive Operator where
  | greater
  | less
  | atLeast
  | atMost
  | like
  | oneOf
deriving DecidableEq, Repr

namespace Operator

def all : List Operator := [greater, less, atLeast, atMost, like, oneOf]

def token : Operator → String
  | greater => "gt"
  | less => "lt"
  | atLeast => "geq"
  | atMost => "leq"
  | like => "like"
  | oneOf => "in"

def symbol : Operator → String
  | greater => ">"
  | less => "<"
  | atLeast => ">="
  | atMost => "<="
  | like => "LIKE"
  | oneOf => "IN"

def isOrdering : Operator → Bool
  | greater | less | atLeast | atMost => true
  | like | oneOf => false

def ofToken? (token : String) : Option Operator := all.find? fun op => op.token = token

theorem mem_all (op : Operator) : op ∈ all := by
  cases op <;> decide

theorem ofToken?_eq_some_iff {s : String} {op : Operator} :
    ofToken? s = some op ↔ s = op.token := by
  constructor
  · intro h
    have := List.find?_some (show all.find? (fun op => op.token = s) = some op from h)
    exact (of_decide_eq_true this).symm
  · rintro rfl
    cases op <;> decide

def symbolOf (token : String) : Except FilterError String :=
  match ofToken? token with
  | some op => .ok op.symbol
  | none => .error (.unknownOperator token)

end Operator

/-- How the members of a group are combined. -/
inductive Connective where
  | and
  | or
deriving DecidableEq, Repr

namespace Connective

def keyword : Connective → String
  | and => "$and"
  | or => "$or"

def symbol : Connective → String
  | and => "AND"
  | or => "OR"

/-- The connective that a key of a filter names, in any case. -/
def ofKeyword? (key : String) : Option Connective :=
  if Text.SameFolded key "$and" then some and
  else if Text.SameFolded key "$or" then some or
  else none

@[simp] theorem ofKeyword?_keyword (c : Connective) : ofKeyword? c.keyword = some c := by
  cases c <;> decide

/-- The connective of a name, in any case and with or without its dollar sign. -/
def ofName (name : String) : Except FilterError Connective :=
  let bare := match name.toList with
    | '$' :: rest => String.ofList rest
    | _ => name
  if Text.SameFolded bare "and" then .ok and
  else if Text.SameFolded bare "or" then .ok or
  else .error (.invalid (.connectiveUnknown name))

end Connective

end SearchFilter
