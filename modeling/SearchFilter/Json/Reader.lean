import SearchFilter.Json.Token

/-!
# Reading JSON

A value is read by recursion on the depth that is still allowed, the items of a container one after
the other. Every item takes at least one character, so a container's text bounds the count of its
items.
-/

namespace SearchFilter.Json

/-- Reads the items of a list up to its closing bracket, from where an item must start. -/
def readItems {α : Type} (item : List Char → Reading α) : (bound : Nat) → (read : List α) →
    List Char → Except Fault (List α × List Char)
  | 0, _, cs => faultBefore .endOfList cs
  | bound + 1, read, cs => do
    let (v, cs) ← item cs
    match skipBlank cs with
    | [] => faultBefore .endOfList []
    | ']' :: rest => .ok ((v :: read).reverse, rest)
    | ',' :: rest =>
      match skipBlank rest with
      | [] => faultBefore .endOfValue []
      | ']' :: rest => faultAt .trailingComma (']' :: rest)
      | rest => readItems item bound (v :: read) rest
    | rest => faultAt .expectedListEnd rest

def readList {α : Type} (item : List Char → Reading α) (cs : List Char) : Reading (List α) :=
  match skipBlank cs with
  | [] => faultBefore .endOfList []
  | ']' :: rest => .ok ([], rest)
  | rest => readItems item rest.length [] rest

def readName : List Char → Except Fault (String × List Char)
  | '"' :: rest => do
    let (name, rest) ← readString rest
    match skipBlank rest with
    | [] => faultBefore .endOfObject []
    | ':' :: rest => .ok (name, rest)
    | rest => faultAt .expectedColon rest
  | rest => faultAt .keyNotString rest

/-- Reads the members of an object up to its closing bracket, from where a name must start. Each
member is put to those read before it. -/
def readMembers {κ α : Type} (name : List Char → Reading κ) (item : List Char → Reading α)
    (put : κ → α → List (κ × α) → List (κ × α)) : (bound : Nat) → (read : List (κ × α)) →
    List Char → Except Fault (List (κ × α) × List Char)
  | 0, _, cs => faultBefore .endOfObject cs
  | bound + 1, read, cs => do
    let (k, cs) ← name cs
    let (v, cs) ← item cs
    let read := put k v read
    match skipBlank cs with
    | [] => faultBefore .endOfObject []
    | '}' :: rest => .ok (read, rest)
    | ',' :: rest =>
      match skipBlank rest with
      | [] => faultBefore .endOfValue []
      | '}' :: rest => faultAt .trailingComma ('}' :: rest)
      | rest => readMembers name item put bound read rest
    | rest => faultAt .expectedObjectEnd rest

def readObject {κ α : Type} (name : List Char → Reading κ) (item : List Char → Reading α)
    (put : κ → α → List (κ × α) → List (κ × α)) (cs : List Char) : Reading (List (κ × α)) :=
  match skipBlank cs with
  | [] => faultBefore .endOfObject []
  | '}' :: rest => .ok ([], rest)
  | rest => readMembers name item put rest.length [] rest

/-- Reads a value that holds containers at most `depth` deep. -/
def readValue : (depth : Nat) → List Char → Reading Json
  | 0, cs =>
    match skipBlank cs with
    | '[' :: rest => faultAt .tooDeep ('[' :: rest)
    | '{' :: rest => faultAt .tooDeep ('{' :: rest)
    | rest => readScalar rest
  | depth + 1, cs =>
    match skipBlank cs with
    | '[' :: rest => (readList (readValue depth) rest).map fun (vs, rest) => (.array vs, rest)
    | '{' :: rest =>
      (readObject readName (readValue depth) setMember rest).map fun (ms, rest) =>
        (.object ms, rest)
    | rest => readScalar rest

def depthMax : Nat := 127

/-- Only blanks may stand behind a document. -/
def expectEnd (cs : List Char) : Except Fault Unit :=
  match skipBlank cs with
  | [] => .ok ()
  | rest => faultAt .trailingCharacters rest

def readText (text : List Char) : Except Fault Json := do
  let (v, rest) ← readValue depthMax text
  expectEnd rest
  return v

/-- The value of a JSON text, or the message that says where and why it has none. -/
def parse (text : String) : Except String Json :=
  (readText text.toList).mapError (·.message text.toList)

end SearchFilter.Json
