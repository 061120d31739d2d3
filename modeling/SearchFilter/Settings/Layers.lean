import SearchFilter.Filter.Document
import SearchFilter.Statement.Backend
import SearchFilter.Text.Blank

/-!
# Settings and their layers

Settings come from the command line, from two files and from defaults. Each is decided for itself:
the first layer that has it wins, whatever else the layer has. The settings as a whole are then
checked, and the first rule that they break is reported.
-/

namespace SearchFilter.Settings

structure DatabaseSection where
  backend : Option Backend
  url : Option String
  maxConnections : Option Nat
  minConnections : Option Nat
  acquireTimeout : Option Nat
  statementTimeout : Option Nat
deriving DecidableEq, Repr

structure FilterSection where
  maxBytes : Option Nat
deriving DecidableEq, Repr

structure FileSettings where
  database : Option DatabaseSection
  filters : Option FilterSection
deriving DecidableEq, Repr

structure CommandSettings where
  config : Option String
  backend : Option Backend
  databaseUrl : Option String
  maxFilterBytes : Option Nat
deriving DecidableEq, Repr

def DatabaseSection.empty : DatabaseSection := ⟨none, none, none, none, none, none⟩

def FilterSection.empty : FilterSection := ⟨none⟩

def FileSettings.empty : FileSettings := ⟨none, none⟩

/-- The settings of `upper`, and those of `lower` that it lacks. -/
def DatabaseSection.over (upper lower : DatabaseSection) : DatabaseSection where
  backend := upper.backend.or lower.backend
  url := upper.url.or lower.url
  maxConnections := upper.maxConnections.or lower.maxConnections
  minConnections := upper.minConnections.or lower.minConnections
  acquireTimeout := upper.acquireTimeout.or lower.acquireTimeout
  statementTimeout := upper.statementTimeout.or lower.statementTimeout

def FilterSection.over (upper lower : FilterSection) : FilterSection where
  maxBytes := upper.maxBytes.or lower.maxBytes

/-- Lays one file's settings over another's. -/
def FileSettings.over (upper lower : FileSettings) : FileSettings where
  database :=
    match upper.database with
    | none => lower.database
    | some s => some (s.over (lower.database.getD .empty))
  filters :=
    match upper.filters with
    | none => lower.filters
    | some s => some (s.over (lower.filters.getD .empty))

/-- The settings of `upper`, and those of `lower` that it lacks. -/
def CommandSettings.over (upper lower : CommandSettings) : CommandSettings where
  config := upper.config.or lower.config
  backend := upper.backend.or lower.backend
  databaseUrl := upper.databaseUrl.or lower.databaseUrl
  maxFilterBytes := upper.maxFilterBytes.or lower.maxFilterBytes

structure DatabaseSettings where
  backend : Backend
  url : String
  maxConnections : Nat
  minConnections : Nat
  acquireTimeout : Nat
  statementTimeout : Nat
deriving DecidableEq, Repr

structure ProgramSettings where
  database : DatabaseSettings
  maxFilterBytes : Nat
deriving DecidableEq, Repr

def defaultSqliteUrl : String := "sqlite://tdjobs.db"

def defaultMaxConnections : Nat := 20

def defaultMinConnections : Nat := 2

def defaultAcquireTimeout : Nat := 30

def defaultStatementTimeout : Nat := 60

/-- The url of a backend that nobody names. -/
def defaultUrl : Backend → String
  | .sqlite => defaultSqliteUrl
  | .postgres => ""

def resolve (command : CommandSettings) (file : FileSettings) : ProgramSettings :=
  let database := file.database.getD .empty
  let filters := file.filters.getD .empty
  let backend := (command.backend.or database.backend).getD .sqlite
  { database :=
      { backend
        url := (command.databaseUrl.or database.url).getD (defaultUrl backend)
        maxConnections := database.maxConnections.getD defaultMaxConnections
        minConnections := database.minConnections.getD defaultMinConnections
        acquireTimeout := database.acquireTimeout.getD defaultAcquireTimeout
        statementTimeout := database.statementTimeout.getD defaultStatementTimeout }
    maxFilterBytes := (command.maxFilterBytes.or filters.maxBytes).getD Filter.defaultLimit }

inductive SettingsError where
  | fileNotFound (path : String)
  | fileUnreadable (path reason : String)
  | fileMalformed (path message : String)
  | urlMissing (backend : Backend)
  | noConnections
  | connectionsOutOfOrder (min max : Nat)
  | noFilterBytes
deriving DecidableEq, Repr

def SettingsError.message : SettingsError → String
  | .fileNotFound path => s!"Config file not found: {path}"
  | .fileUnreadable path reason => s!"Failed to read config file: {path}: {reason}"
  | .fileMalformed path message => s!"Failed to parse config file: {path}: {message}"
  | .urlMissing backend =>
    s!"Configuration error: database.url is required for the {backend.name} backend"
  | .noConnections => "Configuration error: database.max_connections must be greater than 0"
  | .connectionsOutOfOrder min max =>
    s!"Configuration error: database.min_connections ({min}) exceeds max_connections ({max})"
  | .noFilterBytes => "Configuration error: filters.max_json_bytes must be greater than 0"

/-- Checks the rules that settings have to keep, in their order. -/
def ProgramSettings.check (s : ProgramSettings) : Except SettingsError Unit :=
  if Text.trim s.database.url = "" then .error (.urlMissing s.database.backend)
  else if s.database.maxConnections = 0 then .error .noConnections
  else if s.database.maxConnections < s.database.minConnections then
    .error (.connectionsOutOfOrder s.database.minConnections s.database.maxConnections)
  else if s.maxFilterBytes = 0 then .error .noFilterBytes
  else .ok ()

/-- Decides every setting and checks them together. -/
def settle (command : CommandSettings) (file : FileSettings) :
    Except SettingsError ProgramSettings :=
  let s := resolve command file
  s.check.map fun _ => s

end SearchFilter.Settings
