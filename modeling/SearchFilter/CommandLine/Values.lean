import SearchFilter.Environment.Variables
import SearchFilter.Numeric.Unsigned
import SearchFilter.Schema.Entity
import SearchFilter.Settings.Layers

/-!
# Arguments and their values

Every argument of the command line has a place of its own. A place takes one value, which is checked
when it is put there. The settings may also come from environment variables.
-/

namespace SearchFilter.CommandLine

/-- Why a command line is not carried out. -/
inductive Rejection where
  | helpWanted
  | versionWanted
  /-- There is no command, and nothing else either. -/
  | nothingGiven
  | commandMissing
  | commandUnknown
  | argumentUnknown
  | argumentMissing
  | valueMissing
  | valueUnwanted
  | valueInvalid
  | argumentRepeated
deriving DecidableEq, Repr

inductive Slot where
  | config
  | backend
  | databaseUrl
  | maxFilterBytes
  | dialect
  | entity
  | filter
deriving DecidableEq, Repr

structure Values where
  settings : Settings.CommandSettings
  dialect : Option Backend
  entity : Option Entity
  filter : Option String
deriving DecidableEq, Repr

namespace Values

def empty : Values := ⟨⟨none, none, none, none⟩, none, none, none⟩

def has (v : Values) : Slot → Bool
  | .config => v.settings.config.isSome
  | .backend => v.settings.backend.isSome
  | .databaseUrl => v.settings.databaseUrl.isSome
  | .maxFilterBytes => v.settings.maxFilterBytes.isSome
  | .dialect => v.dialect.isSome
  | .entity => v.entity.isSome
  | .filter => v.filter.isSome

/-- Checks a value and puts it in its place. -/
def put (v : Values) (slot : Slot) (raw : String) : Except Rejection Values :=
  match slot with
  | .config =>
    if raw = "" then .error .valueMissing
    else .ok { v with settings := { v.settings with config := some raw } }
  | .backend =>
    match Backend.ofName? raw with
    | some b => .ok { v with settings := { v.settings with backend := some b } }
    | none => .error .valueInvalid
  | .databaseUrl => .ok { v with settings := { v.settings with databaseUrl := some raw } }
  | .maxFilterBytes =>
    match Numeric.readUnsigned (UInt64.size - 1) raw with
    | .ok n => .ok { v with settings := { v.settings with maxFilterBytes := some n } }
    | .error _ => .error .valueInvalid
  | .dialect =>
    match Backend.ofName? raw with
    | some b => .ok { v with dialect := some b }
    | none => .error .valueInvalid
  | .entity =>
    match Entity.ofName? raw with
    | some e => .ok { v with entity := some e }
    | none => .error .valueInvalid
  | .filter => .ok { v with filter := some raw }

/-- Gives an argument its value, which must be there and must be the first one. -/
def give (v : Values) (slot : Slot) (raw : Option String) : Except Rejection Values :=
  match raw with
  | none => .error .valueMissing
  | some raw => if v.has slot then .error .argumentRepeated else v.put slot raw

/-- The arguments that have a variable, in the order in which the variables are looked at. -/
def variablesOf : List (Slot × String) :=
  [(.config, Environment.configVariable), (.backend, Environment.backendVariable),
    (.databaseUrl, Environment.databaseUrlVariable),
    (.maxFilterBytes, Environment.maxFilterBytesVariable)]

/-- The values from the environment of the arguments that have none. -/
def fromEnvironment (vars : Environment.Variables) (given : Values) :
    Except Rejection Values :=
  variablesOf.foldlM (fun v (slot, name) =>
    match vars.get? name with
    | some raw => if given.has slot then .ok v else v.put slot raw
    | none => .ok v) empty

end Values

end SearchFilter.CommandLine
