import SearchFilter.Settings.Decode
import SearchFilter.Settings.Files

/-!
# Loading settings

Two files have settings: one in the home directory, and over it one that the command line names or,
if it names none, one in the working directory. A file that the command line names has to be there.
-/

namespace SearchFilter.Settings

def dotFolder : String := ".tdjobs"

def fileName : String := "tdjobs.json"

/-- A file of settings: how it is called in messages, and what was found in its place. -/
structure Layer where
  path : String
  found : Option Entry
  isRequired : Bool
deriving DecidableEq, Repr

def Layer.read (l : Layer) : Except SettingsError (Option Decoded) :=
  match l.found with
  | none => if l.isRequired then .error (.fileNotFound l.path) else .ok none
  | some .folder => .error (.fileUnreadable l.path "Is a directory (os error 21)")
  | some .binary => .error (.fileUnreadable l.path "stream did not contain valid UTF-8")
  | some (.text content) =>
    match decode content with
    | .ok d => .ok (some d)
    | .error message => .error (.fileMalformed l.path message)

/-- Settings, or why there are none, and the unknown keys of each file that has some. -/
structure Loaded where
  unknownKeys : List (List String)
  outcome : Except SettingsError ProgramSettings

def unknownKeysOf (d : Option Decoded) : List (List String) :=
  match d with
  | some d => if d.unknownKeys = [] then [] else [d.unknownKeys]
  | none => []

def settingsOf (d : Option Decoded) : FileSettings :=
  match d with
  | some d => d.settings
  | none => .empty

/-- Lays the second file over the first one and decides all settings. -/
def assemble (command : CommandSettings) (profile overlay : Layer) : Loaded :=
  match profile.read with
  | .error e => ⟨[], .error e⟩
  | .ok lower =>
    match overlay.read with
    | .error e => ⟨unknownKeysOf lower, .error e⟩
    | .ok upper =>
      ⟨unknownKeysOf lower ++ unknownKeysOf upper,
        settle command ((settingsOf upper).over (settingsOf lower))⟩

def load {m : Type → Type} [Monad m] (home workingDirectory : String)
    (look : String → m (Option Entry)) (command : CommandSettings) : m Loaded := do
  let profilePath := joinPath (joinPath home dotFolder) fileName
  let profile := Layer.mk profilePath (← look profilePath) false
  let overlay ←
    match command.config with
    | some path => do
      let path := expandPath home workingDirectory path
      pure (Layer.mk path (← look path) true)
    | none => do pure (Layer.mk fileName (← look (joinPath workingDirectory fileName)) false)
  return assemble command profile overlay

end SearchFilter.Settings
