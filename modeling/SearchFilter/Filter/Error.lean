/-!
# What can be wrong with a filter

Five kinds of errors, each with a stable code. Everything that is wrong with the shape of a filter
is an objection, one constructor per rule that a filter can break.
-/

namespace SearchFilter

/-- A rule on the shape of filters that was broken. -/
inductive Objection where
  /-- Fields that the schema does not allow, each once. -/
  | unknownFields (fields : List String)
  | groupNotObject (keyword : String)
  | groupEmpty (keyword : String)
  | noConditions (field : String)
  | arrayAsValue (field : String)
  /-- A truth value or null in the place of a field's value. -/
  | valueUnsupported (field : String) (value : String)
  /-- A truth value or null behind an operator. -/
  | conditionUnsupported (value : String)
  | listItemNotString
  | listExpected
  | arrayCompared (operator : String)
  | objectCompared (operator : String)
  | connectiveUnknown (name : String)
  | other (message : String)
deriving DecidableEq, Repr

def Objection.message : Objection → String
  | .unknownFields fields =>
    "The following filter parameters are not valid: (" ++ ", ".intercalate fields ++ ")"
  | .groupNotObject keyword =>
    s!"When using '{keyword}', you should specify an object with expressions to be filtered"
  | .groupEmpty keyword => s!"'{keyword}' requires at least one expression"
  | .noConditions field => s!"No conditions given for '{field}'"
  | .arrayAsValue field =>
    s!"Arrays are only supported as the condition of 'in' (field '{field}')"
  | .valueUnsupported field value => s!"Unsupported value for '{field}': {value}"
  | .conditionUnsupported value => s!"Unsupported condition value: {value}"
  | .listItemNotString => "All elements inside the array for 'in' condition must be strings"
  | .listExpected => "Please use an array with all possible values for 'in' condition"
  | .arrayCompared operator =>
    s!"Type mismatch: you can't use '{operator}' to compare an array value"
  | .objectCompared operator =>
    s!"Type mismatch: you can't use '{operator}' to compare an object value"
  | .connectiveUnknown name => s!"Invalid association operator ({name}). Valid ones are: OR, AND"
  | .other message => message

inductive FilterError where
  /-- The text does not decode to an object. -/
  | malformed (message : String)
  | tooLarge (limit : Nat)
  | empty
  | invalid (objection : Objection)
  /-- A name that is no operator stands where only an operator may. -/
  | unknownOperator (token : String)
deriving DecidableEq, Repr

namespace FilterError

def code : FilterError → String
  | .malformed _ => "MALFORMED_FILTER"
  | .tooLarge _ => "FILTER_TOO_LARGE"
  | .empty => "EMPTY_FILTER"
  | .invalid _ => "INVALID_FILTER"
  | .unknownOperator _ => "UNKNOWN_OPERATOR"

def message : FilterError → String
  | .malformed message => s!"Malformed filter: {message}"
  | .tooLarge limit => s!"Filter exceeds maximum size of {limit} bytes"
  | .empty => "No parameters to filter given"
  | .invalid objection => objection.message
  | .unknownOperator token =>
    s!"'{token}' is not included in the valid modifiers (gt, lt, geq, leq, like, in)"

end FilterError

end SearchFilter
