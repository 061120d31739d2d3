import SearchFilter.Json.Reader
import SearchFilter.Json.Skip
import SearchFilter.Settings.Layers
import SearchFilter.Text.Quoted

/-!
# Settings files

A settings file is a JSON object with two sections. A section is an object, or a list of all its
settings in their order. A setting that is null is not set. Unknown keys beside the sections are
gathered; unknown keys inside a section are skipped.
-/

namespace SearchFilter.Settings

open Json (Fault Reading skipBlank faultAt faultBefore)

/-- What a value is, in messages about values of the wrong kind. -/
def kindOf : Json → String
  | .null => "null"
  | .bool true => "boolean `true`"
  | .bool false => "boolean `false`"
  | .number (.double isNegative x) =>
    "floating point `" ++ (Json.Number.double isNegative x).text ++ "`"
  | .number n => "integer `" ++ n.text ++ "`"
  | .string s => "string " ++ Text.quote s
  | .array _ => "sequence"
  | .object _ => "map"

def wrongKind {α : Type} (kind expected : String) (rest : List Char) : Except Fault α :=
  faultBefore (.unwanted ("invalid type: " ++ kind ++ ", expected " ++ expected)) rest

/-- The fault of a value of the wrong kind, noticed behind a plain value and before a container. -/
def refuseValue {α : Type} (expected : String) (cs : List Char) : Except Fault α :=
  match cs with
  | '[' :: _ => wrongKind "sequence" expected cs
  | '{' :: _ => wrongKind "map" expected cs
  | _ =>
    match Json.readScalar cs with
    | .ok (v, rest) => wrongKind (kindOf v) expected rest
    | .error f => .error f

def readOptional {α : Type} (read : List Char → Reading α) (cs : List Char) :
    Reading (Option α) :=
  match skipBlank cs with
  | 'n' :: rest => (Json.readLetters ['u', 'l', 'l'] rest).map fun rest => (none, rest)
  | rest => (read rest).map fun (v, rest) => (some v, rest)

/-- Reads an integer of a type with the given greatest value. -/
def readUnsigned (type : String) (max : Nat) (cs : List Char) : Reading Nat :=
  match skipBlank cs with
  | [] => faultBefore .endOfValue []
  | c :: rest =>
    if c = '-' || c.isDigit then
      match Json.readScalar (c :: rest) with
      | .ok (.number (.natural n), rest) =>
        if n ≤ max then .ok (n, rest)
        else faultBefore (.unwanted s!"invalid value: integer `{n}`, expected {type}") rest
      | .ok (.number (.negative n), rest) =>
        faultBefore (.unwanted s!"invalid value: integer `-{n}`, expected {type}") rest
      | .ok (v, rest) => wrongKind (kindOf v) type rest
      | .error f => .error f
    else refuseValue type (c :: rest)

def readText (cs : List Char) : Reading String :=
  match skipBlank cs with
  | [] => faultBefore .endOfValue []
  | '"' :: rest => Json.readString rest
  | rest => refuseValue "a string" rest

/-- The backend of a name, written exactly. -/
def backendOf (name : String) (rest : List Char) : Reading Backend :=
  if name = "sqlite" then .ok (.sqlite, rest)
  else if name = "postgres" then .ok (.postgres, rest)
  else faultBefore
    (.unwanted ("unknown variant `" ++ name ++ "`, expected `sqlite` or `postgres`")) rest

/-- Reads a backend: its name, or an object with its name and null. -/
def readBackend (cs : List Char) : Except Fault (Backend × List Char) :=
  match skipBlank cs with
  | [] => faultBefore .endOfValue []
  | '"' :: rest => do
    let (name, rest) ← Json.readString rest
    backendOf name rest
  | '{' :: rest =>
    match skipBlank rest with
    | [] => faultBefore .endOfValue []
    | '"' :: rest => do
      let (name, rest) ← Json.readString rest
      let (backend, rest) ← backendOf name rest
      match skipBlank rest with
      | [] => faultBefore .endOfObject []
      | ':' :: rest =>
        match skipBlank rest with
        | [] => faultBefore .endOfValue []
        | 'n' :: rest =>
          let rest ← Json.readLetters ['u', 'l', 'l'] rest
          match skipBlank rest with
          | [] => faultBefore .endOfObject []
          | '}' :: rest => .ok (backend, rest)
          | rest => faultBefore .expectedValue rest
        | rest => refuseValue "unit" rest
      | rest => faultAt .expectedColon rest
    | rest => refuseValue "variant identifier" rest
  | rest => faultAt .expectedValue rest

/-- One setting of a section: its name, and how it is read into the section. -/
structure Field (σ : Type) where
  name : String
  read : σ → List Char → Reading σ

def Field.ofReader {σ α : Type} (name : String) (read : List Char → Reading α)
    (set : σ → Option α → σ) : Field σ where
  name
  read s cs := (readOptional read cs).map fun (v, rest) => (set s v, rest)

/-- How a section is made up. -/
structure Shape (σ : Type) where
  name : String
  empty : σ
  fields : List (Field σ)

/-- What is expected in the place of a list that is too short. -/
def Shape.elements {σ : Type} (shape : Shape σ) : String :=
  let n := shape.fields.length
  "struct " ++ shape.name ++ " with " ++ toString n ++ (if n = 1 then " element" else " elements")

/-- Reads the settings of a list in their order; `taken` of them have been read. -/
def readInOrder {σ : Type} (shape : Shape σ) : List (Field σ) → (taken : Nat) → σ →
    List Char → Except Fault (σ × List Char)
  | [], _, s, cs =>
    match skipBlank cs with
    | [] => faultBefore .endOfList []
    | ']' :: rest => .ok (s, rest)
    | ',' :: rest =>
      match skipBlank rest with
      | ']' :: rest => faultAt .trailingComma (']' :: rest)
      | rest => faultAt .trailingCharacters rest
    | rest => faultAt .trailingCharacters rest
  | field :: fields, taken, s, cs =>
    match skipBlank cs with
    | [] => faultBefore .endOfList []
    | ']' :: rest => faultBefore
        (.unwanted s!"invalid length {taken}, expected {shape.elements}") rest
    | ',' :: rest =>
      if taken = 0 then do
        let (s, rest) ← field.read s (',' :: rest)
        readInOrder shape fields (taken + 1) s rest
      else
        match skipBlank rest with
        | [] => faultBefore .endOfValue []
        | ']' :: rest => faultAt .trailingComma (']' :: rest)
        | rest => do
          let (s, rest) ← field.read s rest
          readInOrder shape fields (taken + 1) s rest
    | rest =>
      if taken = 0 then do
        let (s, rest) ← field.read s rest
        readInOrder shape fields (taken + 1) s rest
      else faultAt .expectedListEnd rest

/-- The fault of a key that was there before. The end of its object right behind it is passed. -/
def repeatedKey {α : Type} (name : String) (rest : List Char) : Except Fault α :=
  let rest := match skipBlank rest with
    | '}' :: rest => rest
    | rest => rest
  faultBefore (.unwanted ("duplicate field `" ++ name ++ "`")) rest

def readColon (cs : List Char) : Except Fault (List Char) :=
  match skipBlank cs with
  | [] => faultBefore .endOfObject []
  | ':' :: rest => .ok rest
  | rest => faultAt .expectedColon rest

/-- The text of the next key of an object up to its opening quote, or `none` at its end. -/
def nextKey (isFirst : Bool) (cs : List Char) : Except Fault (Option (List Char) × List Char) :=
  match skipBlank cs with
  | [] => faultBefore .endOfObject []
  | '}' :: rest => .ok (none, rest)
  | ',' :: rest =>
    if isFirst then faultAt .keyNotString (',' :: rest)
    else
      match skipBlank rest with
      | [] => faultBefore .endOfValue []
      | '"' :: rest => .ok (some rest, rest)
      | '}' :: rest => faultAt .trailingComma ('}' :: rest)
      | rest => faultAt .keyNotString rest
  | '"' :: rest =>
    if isFirst then .ok (some rest, rest) else faultAt .expectedObjectEnd ('"' :: rest)
  | rest => if isFirst then faultAt .keyNotString rest else faultAt .expectedObjectEnd rest

/-- Reads the settings of an object; `seen` holds the names of those read so far. -/
def readByName {σ : Type} (shape : Shape σ) : (bound : Nat) → (isFirst : Bool) →
    (seen : List String) → σ → List Char → Except Fault (σ × List Char)
  | 0, _, _, _, cs => faultBefore .endOfObject cs
  | bound + 1, isFirst, seen, s, cs => do
    match ← nextKey isFirst cs with
    | (none, rest) => return (s, rest)
    | (some key, _) =>
      let (name, rest) ← Json.readString key
      match shape.fields.find? fun f => f.name = name with
      | none =>
        let rest ← Json.skipValue (← readColon rest)
        readByName shape bound false seen s rest
      | some field =>
        if name ∈ seen then repeatedKey name rest
        else
          let (s, rest) ← field.read s (← readColon rest)
          readByName shape bound false (name :: seen) s rest

def Shape.read {σ : Type} (shape : Shape σ) (cs : List Char) : Reading σ :=
  match skipBlank cs with
  | [] => faultBefore .endOfValue []
  | '[' :: rest => readInOrder shape shape.fields 0 shape.empty rest
  | '{' :: rest => readByName shape (rest.length + 1) true [] shape.empty rest
  | rest => refuseValue ("struct " ++ shape.name) rest

def databaseShape : Shape DatabaseSection where
  name := "DatabaseFileConfig"
  empty := .empty
  fields :=
    [.ofReader "backend" readBackend fun s v => { s with backend := v },
      .ofReader "url" readText fun s v => { s with url := v },
      .ofReader "max_connections" (readUnsigned "u32" (UInt32.size - 1))
        fun s v => { s with maxConnections := v },
      .ofReader "min_connections" (readUnsigned "u32" (UInt32.size - 1))
        fun s v => { s with minConnections := v },
      .ofReader "acquire_timeout_secs" (readUnsigned "u64" (UInt64.size - 1))
        fun s v => { s with acquireTimeout := v },
      .ofReader "statement_timeout_secs" (readUnsigned "u64" (UInt64.size - 1))
        fun s v => { s with statementTimeout := v }]

def filterShape : Shape FilterSection where
  name := "FiltersFileConfig"
  empty := .empty
  fields :=
    [.ofReader "max_json_bytes" (readUnsigned "usize" (UInt64.size - 1))
      fun s v => { s with maxBytes := v }]

/-- A file's settings, and the keys in it that are none. -/
structure Decoded where
  settings : FileSettings
  unknownKeys : List String
deriving DecidableEq, Repr

/-- The keys beside the settings are remembered once, in the order of their first appearance. -/
def Decoded.noteUnknown (d : Decoded) (key : String) : Decoded :=
  { d with unknownKeys := addNew d.unknownKeys key }

def readSections : (bound : Nat) → (isFirst : Bool) → (seen : List String) → Decoded →
    List Char → Except Fault (Decoded × List Char)
  | 0, _, _, _, cs => faultBefore .endOfObject cs
  | bound + 1, isFirst, seen, d, cs => do
    match ← nextKey isFirst cs with
    | (none, rest) => return (d, rest)
    | (some key, _) =>
      let (name, rest) ← Json.readString key
      if name = "database" then
        if name ∈ seen then repeatedKey name rest
        else
          let (s, rest) ← readOptional databaseShape.read (← readColon rest)
          let d := { d with settings := { d.settings with database := s } }
          readSections bound false (name :: seen) d rest
      else if name = "filters" then
        if name ∈ seen then repeatedKey name rest
        else
          let (s, rest) ← readOptional filterShape.read (← readColon rest)
          let d := { d with settings := { d.settings with filters := s } }
          readSections bound false (name :: seen) d rest
      else
        let (_, rest) ← Json.readValue (Json.depthMax - 1) (← readColon rest)
        readSections bound false seen (d.noteUnknown name) rest

def readFile (text : List Char) : Except Fault Decoded :=
  match skipBlank text with
  | [] => faultBefore .endOfValue []
  | '{' :: rest => do
    let (d, rest) ← readSections (rest.length + 1) true [] ⟨.empty, []⟩ rest
    Json.expectEnd rest
    return d
  | rest => refuseValue "struct FileConfig" rest

/-- The settings of a file's text, or the message that says where and why it has none. -/
def decode (text : String) : Except String Decoded :=
  (readFile text.toList).mapError (·.message text.toList)

end SearchFilter.Settings
