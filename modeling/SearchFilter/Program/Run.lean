import SearchFilter.CommandLine.Invocation
import SearchFilter.CommandLine.Usage
import SearchFilter.Connection.Session
import SearchFilter.Environment.File
import SearchFilter.Predicate.Compile
import SearchFilter.Program.Report
import SearchFilter.Settings.Load

/-!
# Running the program

A file of environment variables is taken into account, then the command line is read, the settings
are loaded, and the command is carried out. The first thing that goes wrong ends the run.
-/

namespace SearchFilter.Program

/-- What the program finds around it. -/
structure Surroundings (m : Type → Type) where
  home : String
  workingDirectory : String
  environment : String → m (Option String)
  look : String → m (Option Settings.Entry)
  /-- The standard input, or `none` if it is no text. -/
  input : m (Option String)

/-- Why a command fails. -/
inductive Failure where
  | settings (e : Settings.SettingsError)
  | inputUnreadable
  | filter (e : FilterError)
  | binding (e : PredicateFault)
  | connection (backend : Backend) (e : DataError)
  | search (entity : Entity) (e : DataError)
deriving DecidableEq, Repr

def Failure.message : Failure → String
  | .settings e => e.message
  | .inputUnreadable =>
    "Failed to read filter from stdin: stream did not contain valid UTF-8"
  | .filter e => s!"[{e.code}] {e.message}"
  | .binding e => (DataError.invalidPredicate e).message
  | .connection backend e => s!"Failed to connect to {backend.name} database: {e.message}"
  | .search entity e =>
    let hint := if e.isTransient then " (connection problem, retrying may succeed)" else ""
    s!"Search on {entity.table} failed{hint}: {e.message}"

structure Outcome where
  exitCode : Nat
  output : String
  complaint : String
  /-- The unknown keys of each settings file that has some. -/
  unknownKeys : List (List String)
deriving DecidableEq, Repr

def ancestors (path : String) : List String :=
  (go (Settings.components path).reverse) ++ ["/"]
where
  go : List String → List String
    | [] => []
    | name :: around => ("/" ++ "/".intercalate (name :: around).reverse) :: go around

section

variable {m : Type → Type} [Monad m] (s : Surroundings m)

/-- The text of the first file of environment variables in the folders. -/
def environmentText : List String → m String
  | [] => return ""
  | folder :: rest => do
    match ← s.look (Settings.joinPath folder ".env") with
    | some (.text content) => return content
    | some .binary => return ""
    | some .folder | none => environmentText rest

/-- The variables that matter, those of the file included. -/
def knownVariables : m Environment.Variables := do
  let assignments := Environment.assignments
    (← environmentText s (ancestors s.workingDirectory))
  let names := CommandLine.Values.variablesOf.map Prod.snd ++ Environment.namesIn assignments
  let found ← names.mapM fun name => return (← s.environment name).map fun value => (name, value)
  return Environment.Variables.supplyAll (found.filterMap id) assignments

/-- The text of a filter, which a dash puts on the standard input. -/
def filterText (argument : String) : ExceptT Failure m String :=
  if argument = "-" then do
    match ← (s.input : m (Option String)) with
    | some text => return text
    | none => throw .inputUnreadable
  else return argument

/-- Searches the database of the settings. Nothing is stored, so it does not matter when. -/
def search (settings : Settings.ProgramSettings) (entity : Entity) (p : Predicate) :
    ExceptT Failure m (List Int) := do
  match ← (Session.start settings.database "" s.workingDirectory s.look :
      m (Except DataError Session)) with
  | .error e => throw (.connection settings.database.backend e)
  | .ok session =>
    match session.search entity p with
    | .error e => throw (.search entity e)
    | .ok ids => return ids

def carryOut (settings : Settings.ProgramSettings) : CommandLine.Command → ExceptT Failure m String
  | .fields entity => return entity.fieldList
  | .compile entity argument dialect => do
    let p ← compile entity (← filterText s argument)
    match dialect with
    | none => return p.toJson.indented ++ "\n"
    | some backend =>
      match p.bind backend entity.allowlist with
      | .ok query => return query.toJson.indented ++ "\n"
      | .error e => throw (.binding e)
  | .search entity argument => do
    let p ← compile entity (← filterText s argument)
    return idList (← search s settings entity p) ++ "\n"
where
  compile (entity : Entity) (raw : String) : ExceptT Failure m Predicate :=
    match Filter.compileText entity.allowlist settings.maxFilterBytes raw with
    | .ok p => return p
    | .error e => throw (.filter e)

def Outcome.ofRejection (r : CommandLine.Rejection) : Outcome :=
  match r with
  | .helpWanted => ⟨r.exitCode, CommandLine.usage, "", []⟩
  | .versionWanted => ⟨r.exitCode, CommandLine.versionText, "", []⟩
  | _ => ⟨r.exitCode, "", s!"error: {r.message}\n\n{CommandLine.usage}", []⟩

def Outcome.ofFailure (unknownKeys : List (List String)) (f : Failure) : Outcome :=
  ⟨1, "", s!"\nError: {f.message}\n\n", unknownKeys⟩

def run (arguments : List String) : m Outcome := do
  match CommandLine.read (← knownVariables s) arguments with
  | .error r => return .ofRejection r
  | .ok invocation =>
    let loaded ← Settings.load s.home s.workingDirectory s.look invocation.settings
    match loaded.outcome with
    | .error e => return .ofFailure loaded.unknownKeys (.settings e)
    | .ok settings =>
      match ← (carryOut s settings invocation.command).run with
      | .ok output => return ⟨0, output, "", loaded.unknownKeys⟩
      | .error f => return .ofFailure loaded.unknownKeys f

end

end SearchFilter.Program
