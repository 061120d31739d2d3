import SearchFilter.Filter.Tree
import SearchFilter.Json.Reader
import SearchFilter.Json.Writer
import SearchFilter.Schema.Allowlist

/-!
# Filters written as JSON

A document is an object whose keys are fields or connectives. Its fields are checked against the
allowlist first, all at once; then the nodes are read in the order of the document, and the first
entry that is out of place ends the reading.
-/

namespace SearchFilter

/-- Where a key stands: among the columns of the table, or below a column that holds JSON. -/
inductive Scope where
  | columns
  | json
deriving DecidableEq, Repr

/-- The scope of the keys below a field, if there may be any. -/
def Scope.below? (scope : Scope) (allowlist : Allowlist) (field : String) : Option Scope :=
  match scope with
  | .json => some .json
  | .columns => if allowlist.HoldsJson field then some .json else none

/-- Truth values and null are no conditions. -/
def Condition.ofJson : Json → Except FilterError Condition
  | .string s => .ok (.scalar (.text s))
  | .number n => .ok (.scalar (.number n))
  | .array items => .ok (.list items)
  | .object members => .ok (.map members)
  | .bool b => .error (.invalid (.conditionUnsupported (Json.bool b).compact))
  | .null => .error (.invalid (.conditionUnsupported Json.null.compact))

namespace Filter

mutual

/-- The fields that the allowlist does not have among the keys of a value under `key`: the key
itself, or those inside a group. Values of fields are not looked into. -/
def strayBelow (allowlist : Allowlist) (key : String) : Json → List String
  | .object members =>
    match Connective.ofKeyword? key with
    | some _ => strayFields allowlist members
    | none => if allowlist.Allows key then [] else [key]
  | _ =>
    match Connective.ofKeyword? key with
    | some _ => []
    | none => if allowlist.Allows key then [] else [key]

def strayFields (allowlist : Allowlist) : List (String × Json) → List String
  | [] => []
  | (key, value) :: rest => strayBelow allowlist key value ++ strayFields allowlist rest

end

mutual

/-- The nodes of one entry. An entry whose value is an object has one node per member. -/
def readEntry (allowlist : Allowlist) (scope : Scope) (key : String) :
    Json → Except FilterError (List FilterNode)
  | .object members =>
    match Connective.ofKeyword? key with
    | some c =>
      if members.isEmpty then .error (.invalid (.groupEmpty c.keyword))
      else do return [.group c (← readEntries allowlist scope members)]
    | none =>
      if members.isEmpty then .error (.invalid (.noConditions key))
      else readConditions allowlist scope key members
  | value =>
    match Connective.ofKeyword? key with
    | some c => .error (.invalid (.groupNotObject c.keyword))
    | none =>
      match value with
      | .string s => .ok [.equality key (.text s)]
      | .number n => .ok [.equality key (.number n)]
      | .array _ => .error (.invalid (.arrayAsValue key))
      | value => .error (.invalid (.valueUnsupported key value.compact))

def readEntries (allowlist : Allowlist) (scope : Scope) :
    List (String × Json) → Except FilterError (List FilterNode)
  | [] => .ok []
  | (key, value) :: rest => do
    let nodes ← readEntry allowlist scope key value
    return nodes ++ (← readEntries allowlist scope rest)

/-- The nodes of the members of a field's value: a comparison for each operator, a path for any
other key where the field may be looked into. -/
def readConditions (allowlist : Allowlist) (scope : Scope) (field : String) :
    List (String × Json) → Except FilterError (List FilterNode)
  | [] => .ok []
  | (key, value) :: rest => do
    let node ← match Operator.ofToken? key with
      | some op => (Condition.ofJson value).map fun condition => .range field op condition
      | none =>
        match scope.below? allowlist field with
        | some below =>
          (readEntry allowlist below key value).map fun children => .path field children
        | none => .error (.unknownOperator key)
    return node :: (← readConditions allowlist scope field rest)

end

def defaultLimit : Nat := 65536

def ofMembers (allowlist : Allowlist) (members : List (String × Json)) :
    Except FilterError Filter :=
  if members.isEmpty then .error .empty
  else
    match addAllNew [] (strayFields allowlist members) with
    | [] => (readEntries allowlist .columns members).bind ofNodes
    | stray => .error (.invalid (.unknownFields stray))

/-- The filter of a document's text. Its size in bytes is checked before it is decoded. -/
def parse (allowlist : Allowlist) (limit : Nat) (raw : String) : Except FilterError Filter :=
  if limit < raw.utf8ByteSize then .error (.tooLarge limit)
  else
    match Json.parse raw with
    | .error message => .error (.malformed message)
    | .ok (.object members) => ofMembers allowlist members
    | .ok _ => .error (.malformed "filter must be a JSON object")

end Filter

end SearchFilter
