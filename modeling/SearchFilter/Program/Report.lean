import SearchFilter.CommandLine.Usage
import SearchFilter.Json.Writer
import SearchFilter.Schema.Entity
import SearchFilter.Statement.Binding

/-!
# What the program prints

The fields of an entity, one on a line; predicates and bound queries as indented JSON; ids as
compact JSON. The log says that the program starts only at its finer levels.
-/

namespace SearchFilter

/-- The fields that filters may use; those that hold JSON are marked. -/
def Entity.fieldList (e : Entity) : String :=
  String.join (e.allowlist.fields.map fun field =>
    field ++ (if e.allowlist.HoldsJson field then " (json)" else "") ++ "\n")

def Parameter.toJson : Parameter → Json
  | .text s => .string s
  | .list items => .array (items.map .string)

def Predicate.toJson (p : Predicate) : Json :=
  .object [("text", .string p.text), ("parameters", .array (p.parameters.map Parameter.toJson))]

def BoundQuery.toJson (q : BoundQuery) : Json :=
  .object [("sql", .string q.sql), ("binds", .array (q.binds.map .string))]

def idList (ids : List Int) : String := "[" ++ ",".intercalate (ids.map toString) ++ "]"

/-- What the log of a level says first. -/
def startNotice (level : String) : Option String :=
  if level = "debug" ∨ level = "trace" then
    some ("Application starting app=" ++ CommandLine.programTitle.quote)
  else none

end SearchFilter
