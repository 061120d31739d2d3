import SearchFilter.Text.Blank
import SearchFilter.Text.Split

/-!
# File paths

Paths are texts with slashes. Joining puts one slash between two paths unless the second is
absolute; nothing is normalised. A leading tilde stands for the home directory, and a path that is
still relative is taken from the working directory.
-/

namespace SearchFilter.Settings

/-- A path is absolute when it starts with a slash. -/
def IsAbsolute (path : String) : Prop := path.toList.head? = some '/'

instance (path : String) : Decidable (IsAbsolute path) :=
  inferInstanceAs (Decidable (path.toList.head? = some '/'))

/-- The second path as seen from the first one. -/
def joinPath (base path : String) : String :=
  if IsAbsolute path then path
  else
    match base.toList.getLast? with
    | none => path
    | some c => if c = '/' then base ++ path else base ++ "/" ++ path

/-- The path from the home directory, where it starts with a tilde for it. -/
def replaceTilde (home path : String) : String :=
  match path.toList with
  | ['~'] => home
  | '~' :: '/' :: rest => joinPath home (String.ofList rest)
  | _ => path

/-- The absolute path that a path stands for. -/
def expandPath (home workingDirectory path : String) : String :=
  let path := Text.trim path
  if path = "" then workingDirectory
  else
    let expanded := replaceTilde home path
    if IsAbsolute expanded then expanded else joinPath workingDirectory expanded

def pathParts (path : String) : List String := (Text.split '/' path.toList).map String.ofList

/-- The components of a path: its parts without the empty ones and single points. -/
def components (path : String) : List String :=
  (pathParts path).filter fun part => part ≠ "" ∧ part ≠ "."

end SearchFilter.Settings
