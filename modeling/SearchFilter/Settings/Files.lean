import SearchFilter.Settings.Path

/-!
# Files

What can stand at a path, and trees of files, in which every path can be looked up. A path is
walked part by part: each part but the last has to lead to a folder, and two points lead out of one.
-/

namespace SearchFilter.Settings

/-- What stands at a path. -/
inductive Entry where
  | text (content : String)
  /-- A file whose bytes are no text. -/
  | binary
  | folder
deriving DecidableEq, Repr

/-- Files with their places, each a list of names from the root on, and folders that are there even
when they are empty. -/
structure Tree where
  files : List (List String × String)
  folders : List (List String)
deriving DecidableEq, Repr

namespace Tree

def entryAt? (t : Tree) (place : List String) : Option Entry :=
  match t.files.lookup place with
  | some content => some (.text content)
  | none =>
    if place = [] ∨ t.folders.any (place.isPrefixOf ·) ∨ t.files.any (place.isPrefixOf ·.1) then
      some .folder
    else none

/-- What the parts of a path lead to from a place. -/
def walk? (t : Tree) (place : List String) : List String → Option Entry
  | [] => t.entryAt? place
  | part :: rest =>
    if t.entryAt? place = some .folder then
      if part = "" ∨ part = "." then walk? t place rest
      else if part = ".." then walk? t place.dropLast rest
      else walk? t (place ++ [part]) rest
    else none

def entry? (t : Tree) (path : String) : Option Entry := t.walk? [] (pathParts path)

end Tree

end SearchFilter.Settings
