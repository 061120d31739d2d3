import SearchFilter.Connection.Postgres
import SearchFilter.Connection.Sqlite
import SearchFilter.Predicate.Basic
import SearchFilter.Settings.Layers
import SearchFilter.Statement.Engine
import SearchFilter.Table.Search

/-!
# Sessions

A session is a database that has been opened, until it is closed. The tables of SQLite are at hand;
a PostgreSQL server never is, so that waiting for one ends without a connection.
-/

namespace SearchFilter

structure Session where
  backend : Backend
  store : Table.Store
  isClosed : Bool

namespace Session

/-- Finds out whether a SQLite database can be opened. -/
def openSqlite {m : Type → Type} [Monad m] (s : Settings.DatabaseSettings)
    (workingDirectory : String) (look : String → m (Option Settings.Entry)) :
    m (Except ServiceError Unit) :=
  match Connection.SqliteOptions.ofSettings s with
  | .error e => return .error e
  | .ok options => do
    match ← options.failure? workingDirectory look with
    | some failure => return .error (.database failure)
    | none => return .ok ()

/-- Checks the address of a PostgreSQL database, and waits in vain. -/
def openPostgres (s : Settings.DatabaseSettings) : ServiceError :=
  if s.url = "" then .config "PostgreSQL URL is required"
  else
    match Connection.checkPostgresAddress s.url with
    | .error fault => .config s!"Invalid PostgreSQL URL: {fault.message}"
    | .ok _ => .database .poolTimedOut

def start {m : Type → Type} [Monad m] (s : Settings.DatabaseSettings)
    (moment workingDirectory : String) (look : String → m (Option Settings.Entry)) :
    m (Except DataError Session) :=
  match s.backend with
  | .sqlite => do
    match ← openSqlite s workingDirectory look with
    | .ok _ => return .ok ⟨.sqlite, .empty moment, false⟩
    | .error e => return .error (e.toDataError .sqlite)
  | .postgres => return .error ((openPostgres s).toDataError .postgres)

def close (s : Session) : Session := { s with isClosed := true }

/-- Makes sure that there are the tables. -/
def applySchema (s : Session) : Except DataError Unit :=
  if s.isClosed then .error (.database s.backend .poolClosed) else .ok ()

def insert (s : Session) (entity : Entity) (row : List (String × Table.Value)) :
    Except DataError (Int × Session) :=
  if s.isClosed then .error (.database s.backend .poolClosed)
  else
    match s.store.insert? entity row with
    | some (id, store) => .ok (id, { s with store })
    | none => .error (.database s.backend .rejected)

/-- Runs queries on the tables, unless the session is closed. -/
def engine (s : Session) : Engine := fun query =>
  if s.isClosed then .error .poolClosed else s.store.engine query

def search (s : Session) (entity : Entity) (p : Predicate) : Except DataError (List Int) :=
  entity.search s.backend s.engine p

end Session

end SearchFilter
