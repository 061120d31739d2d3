import SearchFilter.CommandLine.Values
import SearchFilter.Text.Split

/-!
# Command lines

A command line has a command with its arguments. The options that concern settings may stand before
or behind the command; behind it they count more, and environment variables count least. A value
that follows its argument is checked when the next argument is taken up, one that is attached to it
at once; two dashes make everything behind them a value.
-/

namespace SearchFilter.CommandLine

inductive Command where
  | fields (entity : Entity)
  | compile (entity : Entity) (filter : String) (dialect : Option Backend)
  | search (entity : Entity) (filter : String)
deriving DecidableEq, Repr

structure Invocation where
  settings : Settings.CommandSettings
  command : Command
deriving DecidableEq, Repr

inductive CommandName where
  | fields
  | compile
  | search
deriving DecidableEq, Repr

def CommandName.ofName? (name : String) : Option CommandName :=
  match name with
  | "fields" => some .fields
  | "compile" => some .compile
  | "search" => some .search
  | _ => none

/-- The word in the place of a command that asks for help with one. -/
def helpWord : String := "help"

def isCommandWord (name : String) : Bool :=
  name = helpWord || (CommandName.ofName? name).isSome

/-- What may be given on one side of the command. -/
structure Level where
  options : List (String × Slot)
  positionals : List Slot
  /-- Only before the command can one ask for the version, and are words taken for commands. -/
  isTop : Bool

def settingOptions : List (String × Slot) :=
  [("config", .config), ("backend", .backend), ("database-url", .databaseUrl),
    ("max-filter-bytes", .maxFilterBytes)]

def Level.top : Level := ⟨settingOptions, [], true⟩

def CommandName.level : CommandName → Level
  | fields => ⟨settingOptions, [.entity], false⟩
  | compile => ⟨settingOptions ++ [("dialect", .dialect)], [.entity, .filter], false⟩
  | search => ⟨settingOptions, [.entity, .filter], false⟩

/-- What has been read of one side of the command. -/
structure Progress where
  values : Values
  /-- The last argument, with the value that is still to be checked. -/
  pending : Option (Slot × Option String)
  /-- The places of the values to come. -/
  positionals : List Slot
  /-- Whether there have been two dashes. -/
  onlyValues : Bool

namespace Progress

def start (level : Level) : Progress := ⟨.empty, none, level.positionals, false⟩

/-- Checks the value of the last argument. -/
def settle (p : Progress) : Except Rejection Progress :=
  match p.pending with
  | none => .ok p
  | some (slot, raw) => do return { p with values := ← p.values.give slot raw, pending := none }

def awaitsValue (p : Progress) : Bool :=
  match p.pending with
  | some (_, none) => ! p.onlyValues
  | _ => false

def option (p : Progress) (slot : Slot) (attached : Option String) : Except Rejection Progress := do
  let p ← p.settle
  match attached with
  | some raw => return { p with values := ← p.values.give slot (some raw) }
  | none => return { p with pending := some (slot, none) }

/-- Ends with a rejection, after the last argument has been checked. -/
def stop (p : Progress) (r : Rejection) : Except Rejection Progress := do
  let _ ← p.settle
  throw r

def longOption (level : Level) (p : Progress) (name : String) (attached : Option String) :
    Except Rejection Progress :=
  let question :=
    if name = "help" then some Rejection.helpWanted
    else if name = "version" ∧ level.isTop then some Rejection.versionWanted
    else none
  match question, attached with
  | some _, some _ => .error .valueUnwanted
  | some r, none => p.stop r
  | none, _ =>
    match level.options.lookup name with
    | some slot => p.option slot attached
    | none => .error .argumentUnknown

/-- Takes up an option with a short name; what is attached to it may have an equals sign. -/
def shortOption (level : Level) (p : Progress) (name : Char) (attached : List Char) :
    Except Rejection Progress :=
  if name = 'h' then p.stop .helpWanted
  else if name = 'V' ∧ level.isTop then p.stop .versionWanted
  else if name = 'c' then
    match attached with
    | [] => p.option .config none
    | '=' :: rest | rest => p.option .config (some (String.ofList rest))
  else .error .argumentUnknown

/-- Takes up a value: that of the option before it, or the next one in its place. -/
def value (level : Level) (p : Progress) (raw : String) : Except Rejection Progress :=
  match p.awaitsValue, p.pending, p.positionals with
  | true, some (slot, _), _ => .ok { p with pending := some (slot, some raw) }
  | _, _, slot :: rest => do
    return { ← p.settle with pending := some (slot, some raw), positionals := rest }
  | _, _, [] =>
    if level.isTop ∧ ¬ (p.onlyValues ∧ isCommandWord raw) then .error .commandUnknown
    else .error .argumentUnknown

def step (level : Level) (p : Progress) (argument : String) : Except Rejection Progress :=
  if p.onlyValues then p.value level argument
  else
    match argument.toList with
    | ['-', '-'] => .ok { p with onlyValues := true }
    | '-' :: '-' :: cs =>
      p.longOption level (String.ofList (Text.cutAt '=' cs).1)
        ((Text.cutAt '=' cs).2.map String.ofList)
    | '-' :: c :: rest => p.shortOption level c rest
    | _ => p.value level argument

/-- Checks the last argument, and yields the values given and those of the environment. -/
def finish (vars : Environment.Variables) (p : Progress) : Except Rejection (Values × Values) := do
  let p ← p.settle
  return (p.values, ← Values.fromEnvironment vars p.values)

end Progress

/-- The answer to a call for help with a command. -/
def helpWith : List String → Rejection
  | [] => .helpWanted
  | [name] => if isCommandWord name then .helpWanted else .commandUnknown
  | _ => .commandUnknown

/-- Reads the arguments up to the command, and yields the arguments behind it. -/
def readTop : Progress → List String →
    Except Rejection (Progress × Option (CommandName × List String))
  | p, [] => .ok (p, none)
  | p, argument :: rest =>
    if p.onlyValues = false ∧ p.awaitsValue = false ∧ argument = helpWord then
      .error (helpWith rest)
    else
      match CommandName.ofName? argument, p.onlyValues || p.awaitsValue with
      | some name, false => .ok (p, some (name, rest))
      | _, _ => do readTop (← p.step .top argument) rest

/-- The command of a name with the values of its arguments. -/
def CommandName.command (name : CommandName) (v : Values) : Except Rejection Command :=
  match name, v.entity, v.filter with
  | fields, some e, _ => .ok (.fields e)
  | compile, some e, some f => .ok (.compile e f v.dialect)
  | search, some e, some f => .ok (.search e f)
  | _, _, _ => .error .argumentMissing

def readCommand (vars : Environment.Variables) (name : CommandName) (arguments : List String) :
    Except Rejection (Values × Command) := do
  let p ← arguments.foldlM (Progress.step name.level) (.start name.level)
  let (given, _) ← p.finish vars
  return (given, ← name.command given)

def read (vars : Environment.Variables) (arguments : List String) :
    Except Rejection Invocation := do
  match ← readTop (.start .top) arguments with
  | (p, none) =>
    let (given, found) ← p.finish vars
    throw (if given = .empty ∧ found = .empty then .nothingGiven else .commandMissing)
  | (p, some (name, rest)) =>
    let (inner, command) ← readCommand vars name rest
    let (outer, found) ← p.finish vars
    return ⟨(inner.settings.over outer.settings).over found.settings, command⟩

end SearchFilter.CommandLine
