import SearchFilter.Schema.Allowlist
import SearchFilter.Text.Letter

/-!
# Backends and their dialects

The two kinds of databases that searches run on, and how each writes a bound value, a bound value
of a type, and a walk into JSON that is to yield text.
-/

namespace SearchFilter

inductive Backend where
  | sqlite
  | postgres
deriving DecidableEq, Repr

namespace Backend

def name : Backend → String
  | sqlite => "sqlite"
  | postgres => "postgres"

/-- The backend of a name in any case. Apart from the ASCII capitals no character has a small form
that occurs in these names. -/
def ofName? (name : String) : Option Backend :=
  if Text.SameFolded name "sqlite" then some sqlite
  else if Text.SameFolded name "postgres" ∨ Text.SameFolded name "postgresql" then some postgres
  else none

def unknownMessage (name : String) : String :=
  s!"Invalid backend '{name}'. Valid options: sqlite, postgres"

end Backend

/-- The type that a bound text is cast to, where text does not compare as it is. -/
def ColumnType.cast? : ColumnType → Option String
  | .integer => some "bigint"
  | .date => some "date"
  | .timestamp => some "timestamp"
  | .boolean => some "boolean"
  | .text | .json => none

namespace Backend

/-- The placeholder of the bind with an index, counted from one. -/
def placeholder (b : Backend) (index : Nat) : String :=
  match b with
  | sqlite => "?"
  | postgres => "$" ++ toString index

/-- The placeholder of a bind that is compared with a column of a type. -/
def typedPlaceholder (b : Backend) (index : Nat) (type : ColumnType) : String :=
  match b, type.cast? with
  | postgres, some cast => b.placeholder index ++ "::" ++ cast
  | _, _ => b.placeholder index

/-- A whole walk into JSON, made to yield text: the stored type of a JSON value would not compare
with a bound text. -/
def jsonText (b : Backend) (path : String) : String :=
  match b with
  | sqlite => "CAST(" ++ path ++ " AS TEXT)"
  | postgres => path

end Backend

end SearchFilter
