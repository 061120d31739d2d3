import SearchFilter.Statement.Backend

/-!
# What can go wrong with a search

A search fails in the database, in its settings, or because the text and the parameters of its
predicate do not belong together. Only some failures of the connection may pass by themselves.
-/

namespace SearchFilter

/-- Why a database did not answer. -/
inductive DatabaseFailure where
  | poolTimedOut
  | poolClosed
  | rowNotFound
  | workerCrashed
  | io (message : String)
  | protocol (message : String)
  | columnNotFound (name : String)
  /-- The engine gives up with a code and a message. -/
  | engine (code : Nat) (message : String)
  /-- The engine rejects the statement. -/
  | rejected
deriving DecidableEq, Repr

namespace DatabaseFailure

def message : DatabaseFailure → String
  | poolTimedOut => "pool timed out while waiting for an open connection"
  | poolClosed => "attempted to acquire a connection on a closed pool"
  | rowNotFound =>
    "no rows returned by a query that expected to return at least one row"
  | workerCrashed => "attempted to communicate with a crashed background worker"
  | io message => s!"error communicating with database: {message}"
  | protocol message => s!"encountered unexpected or invalid data: {message}"
  | columnNotFound name => s!"no column found for name: {name}"
  | engine code message => s!"error returned from database: (code: {code}) {message}"
  | rejected => "error returned from database: statement rejected"

/-- Whether another attempt may succeed. -/
def isTransient : DatabaseFailure → Bool
  | poolTimedOut | poolClosed | io _ => true
  | _ => false

end DatabaseFailure

inductive ServiceError where
  | database (failure : DatabaseFailure)
  | config (message : String)
deriving DecidableEq, Repr

def ServiceError.message : ServiceError → String
  | .database failure => s!"Database error: {failure.message}"
  | .config message => s!"Configuration error: {message}"

/-- How the text and the parameters of a predicate disagree. -/
inductive PredicateFault where
  | countMismatch (placeholders parameters : Nat)
  | outOfParameters
  | other (message : String)
deriving DecidableEq, Repr

def PredicateFault.message : PredicateFault → String
  | .countMismatch placeholders parameters =>
    s!"{placeholders} placeholders but {parameters} parameters"
  | .outOfParameters => "ran out of parameters while binding"
  | .other message => message

inductive DataError where
  | database (backend : Backend) (failure : DatabaseFailure)
  | config (message : String)
  | invalidPredicate (fault : PredicateFault)
deriving DecidableEq, Repr

def ServiceError.toDataError (backend : Backend) : ServiceError → DataError
  | .database failure => .database backend failure
  | .config message => .config message

namespace DataError

def message : DataError → String
  | .database .sqlite failure => s!"SQLite error: {failure.message}"
  | .database .postgres failure => s!"PostgreSQL error: {failure.message}"
  | .config message => s!"Configuration error: {message}"
  | .invalidPredicate fault => s!"Invalid predicate: {fault.message}"

def isTransient : DataError → Bool
  | .database _ failure => failure.isTransient
  | .config _ | .invalidPredicate _ => false

def backend? : DataError → Option Backend
  | .database backend _ => some backend
  | .config _ | .invalidPredicate _ => none

end DataError

end SearchFilter
