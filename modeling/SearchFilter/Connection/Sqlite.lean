import SearchFilter.Connection.Address
import SearchFilter.Settings.Files
import SearchFilter.Settings.Layers
import SearchFilter.Statement.Error
import SearchFilter.Text.Percent

/-!
# Addresses of SQLite databases

An address names a file or the memory, and parameters behind a question mark say how it is opened.
A database that is not there is created, unless it may only be read. A new database is empty; the
tables are created when it is opened, so one that may only be read is never opened. The settings say
how many connections there are and how long one waits for them.
-/

namespace SearchFilter.Connection

/-- More connections than these are never open, whatever the settings say. -/
def sqliteMaxConnections : Nat := 4

/-- The seconds that a connection waits while another one writes. -/
def sqliteBusyTimeout : Nat := 5

/-- The text without all the words at its front. -/
def dropRepeated (word cs : List Char) : List Char :=
  if _h : word ≠ [] ∧ word.isPrefixOf cs then dropRepeated word (cs.drop word.length) else cs
termination_by cs.length
decreasing_by
  have hw := List.length_pos_iff.2 _h.1
  have hp := (List.isPrefixOf_iff_prefix.1 _h.2).length_le
  simp only [List.length_drop]
  omega

def occurs (word : List Char) : List Char → Bool
  | [] => word.isEmpty
  | c :: rest => word.isPrefixOf (c :: rest) || occurs word rest

structure SqliteAddress where
  path : String
  inMemory : Bool
  isReadOnly : Bool
  isImmutable : Bool
  /-- The name of the layer through which files are reached. -/
  vfs : Option String
deriving DecidableEq, Repr

def vfsNames : List String := ["unix", "unix-none", "unix-dotfile", "unix-excl", "memdb"]

namespace SqliteAddress

def adjust (a : SqliteAddress) (parameter : String × String) :
    Except AddressFault SqliteAddress :=
  let (name, value) := parameter
  match name with
  | "mode" =>
    match value with
    | "ro" => .ok { a with isReadOnly := true }
    | "rw" | "rwc" => .ok a
    | "memory" => .ok { a with inMemory := true }
    | _ => .error (.unknownValue name value)
  | "cache" =>
    if value = "private" ∨ value = "shared" then .ok a else .error (.unknownValue name value)
  | "immutable" =>
    match value with
    | "true" | "1" => .ok { a with isImmutable := true }
    | "false" | "0" => .ok { a with isImmutable := false }
    | _ => .error (.unknownValue name value)
  | "vfs" => .ok { a with vfs := some value }
  | _ => .error (.unknownParameter name)

/-- Reads an address, whose scheme may be repeated. -/
def read (url : String) : Except AddressFault SqliteAddress := do
  let cs := dropRepeated "sqlite:".toList (dropRepeated "sqlite://".toList url.toList)
  let (database, parameters) := Text.cutAt '?' cs
  let inMemory := database = ":memory:".toList
  let path ←
    if inMemory then .ok ""
    else (Text.decodeBytes (Text.percentDecode database)).mapError .bytes
  (Text.formPairs (parameters.getD [])).foldlM adjust
    { path, inMemory := inMemory || path = ":memory:", isReadOnly := false, isImmutable := false,
      vfs := none }

/-- The failure of a database that may only be read where it would have to be written. -/
def readOnlyFailure (isReadOnly : Bool) : Option DatabaseFailure :=
  if isReadOnly then some (.engine 8 "attempt to write a readonly database") else none

def cannotOpen : DatabaseFailure := .engine 14 "unable to open database file"

/-- Why a database cannot be opened in a file, given what stands at its path and at the path of the
folder around it. -/
def fileFailure? (a : SqliteAddress) (entry around : Option Settings.Entry) :
    Option DatabaseFailure :=
  match entry with
  | some .folder => some cannotOpen
  | some (.text "") => readOnlyFailure (a.isReadOnly || a.isImmutable)
  | some _ => some (.engine 26 "file is not a database")
  | none =>
    if around = some .folder ∧ a.isReadOnly = false then readOnlyFailure a.isImmutable
    else some cannotOpen

/-- The path of the folder around an absolute path. -/
def around (path : String) : String :=
  match (Settings.pathParts path).dropLast with
  | [] | [""] => "/"
  | parts => "/".intercalate parts

/-- Why a database cannot be opened, if it cannot. -/
def failure? {m : Type → Type} [Monad m] (a : SqliteAddress) (workingDirectory : String)
    (look : String → m (Option Settings.Entry)) : m (Option DatabaseFailure) := do
  if a.vfs = none ∧ a.isImmutable = false ∧ '\x00' ∈ a.path.toList then
    return some (.io "filename passed to SQLite must not contain nul bytes")
  match a.vfs.filter (· ∉ vfsNames) with
  | some name => return some (.engine 1 s!"no such vfs: {name}")
  | none =>
    if a.inMemory ∨ a.path = "" ∨ a.vfs = some "memdb" then return readOnlyFailure a.isReadOnly
    else
      let path := Settings.joinPath workingDirectory a.path
      return a.fileFailure? (← look path) (← look (around path))

end SqliteAddress

/-- Whether an address is taken for one of the memory, which has one connection at all times. -/
def mentionsMemory (url : String) : Bool :=
  occurs ":memory:".toList url.toList || occurs "mode=memory".toList url.toList

/-- How a database is opened. Times are in seconds. -/
structure SqliteOptions where
  address : SqliteAddress
  connections : Nat
  acquireTimeout : Nat
  busyTimeout : Nat
deriving DecidableEq, Repr

namespace SqliteOptions

def ofSettings (s : Settings.DatabaseSettings) : Except ServiceError SqliteOptions :=
  if ¬ "sqlite:".toList.isPrefixOf s.url.toList then
    .error (.config s!"SQLite URL must start with 'sqlite:', got '{s.url}'")
  else
    match SqliteAddress.read s.url with
    | .error fault => .error (.config s!"Invalid SQLite URL: {fault.message}")
    | .ok address =>
      .ok {
        address
        connections :=
          if mentionsMemory s.url then 1 else min s.maxConnections sqliteMaxConnections
        acquireTimeout := s.acquireTimeout
        busyTimeout := sqliteBusyTimeout }

/-- Why there is no connection, if there is none. -/
def failure? {m : Type → Type} [Monad m] (o : SqliteOptions) (workingDirectory : String)
    (look : String → m (Option Settings.Entry)) : m (Option DatabaseFailure) :=
  if o.acquireTimeout = 0 ∨ o.connections = 0 then return some .poolTimedOut
  else o.address.failure? workingDirectory look

end SqliteOptions

end SearchFilter.Connection
