import SearchFilter.Json.Reader
import SearchFilter.Json.Skip

/-!
# JSON in cells

A cell keeps JSON as it was spelled: numbers with all their digits, strings with their escapes, and
every member of an object, even where a name occurs again. Only blanks between the parts do not
matter. JSON is read without extensions: names stand between quotes, and there are no comments.
-/

namespace SearchFilter.Table

open Json (Fault Reading skipBlank faultAt)

inductive StoredJson where
  | null
  | bool (b : Bool)
  | number (spelling : List Char)
  /-- What stands between the quotes. -/
  | string (spelling : List Char)
  | array (items : List StoredJson)
  | object (members : List (List Char × StoredJson))

namespace StoredJson

/-- Takes what a skip passes over. -/
def spelled (skip : List Char → Except Fault (List Char)) (cs : List Char) :
    Reading (List Char) :=
  (skip cs).map fun rest => (cs.take (cs.length - rest.length), rest)

/-- Takes a string behind its opening quote, without its closing one. -/
def readSpelling (cs : List Char) : Reading (List Char) :=
  (spelled Json.skipString cs).map fun (s, rest) => (s.dropLast, rest)

def readName : List Char → Except Fault (List Char × List Char)
  | '"' :: rest => do
    let (name, rest) ← readSpelling rest
    match skipBlank rest with
    | ':' :: rest => .ok (name, rest)
    | rest => faultAt .expectedColon rest
  | rest => faultAt .keyNotString rest

def readScalar : List Char → Reading StoredJson
  | [] => faultAt .endOfValue []
  | c :: rest =>
    if c = 'n' then (Json.readLetters ['u', 'l', 'l'] rest).map fun rest => (.null, rest)
    else if c = 't' then (Json.readLetters ['r', 'u', 'e'] rest).map fun rest => (.bool true, rest)
    else if c = 'f' then
      (Json.readLetters ['a', 'l', 's', 'e'] rest).map fun rest => (.bool false, rest)
    else if c = '"' then (readSpelling rest).map fun (s, rest) => (.string s, rest)
    else (spelled Json.skipScalar (c :: rest)).map fun (s, rest) => (.number s, rest)

/-- Reads a value that holds containers at most `depth` deep. -/
def readValue : (depth : Nat) → List Char → Reading StoredJson
  | 0, cs => readScalar (skipBlank cs)
  | depth + 1, cs =>
    match skipBlank cs with
    | '[' :: rest => (Json.readList (readValue depth) rest).map fun (vs, rest) => (.array vs, rest)
    | '{' :: rest =>
      (Json.readObject readName (readValue depth) (fun k v read => read ++ [(k, v)]) rest).map
        fun (ms, rest) => (.object ms, rest)
    | rest => readScalar rest

def depthMax : Nat := 1000

def read? (text : String) : Option StoredJson :=
  match readValue depthMax text.toList with
  | .ok (v, rest) => if skipBlank rest = [] then some v else none
  | .error _ => none

mutual

/-- The spelling of a value without blanks. -/
def write : StoredJson → List Char
  | .null => "null".toList
  | .bool true => "true".toList
  | .bool false => "false".toList
  | .number s => s
  | .string s => '"' :: s ++ ['"']
  | .array items => '[' :: writeItems items ++ [']']
  | .object members => '\x7b' :: writeMembers members ++ ['\x7d']

def writeItems : List StoredJson → List Char
  | [] => []
  | [v] => write v
  | v :: w :: rest => write v ++ ',' :: writeItems (w :: rest)

def writeMembers : List (List Char × StoredJson) → List Char
  | [] => []
  | [(k, v)] => '"' :: k ++ '"' :: ':' :: write v
  | (k, v) :: m :: rest => '"' :: k ++ '"' :: ':' :: write v ++ ',' :: writeMembers (m :: rest)

end

def text (v : StoredJson) : String := String.ofList v.write

/-- Stands for an escape that is none. -/
def noCharacter : Nat := 0x99999

/-- The code of an escape with a single letter. -/
def letterCode (c : Char) : Nat :=
  match Json.shortEscape? c with
  | some e => e.toNat
  | none => if c = 'v' then 11 else if c = '0' then 0 else if c = '\'' then 39 else noCharacter

/-- The codes of the characters that a spelling stands for. Two surrogates side by side are one
character; a single one keeps its code. -/
def codes : List Char → List Nat
  | [] => []
  | '\\' :: 'u' :: a :: b :: c :: d :: '\\' :: 'u' :: e :: f :: g :: h :: rest =>
    match Json.unit? a b c d, Json.unit? e f g h with
    | some m, some n =>
      if Json.isLead m ∧ Json.isTrail n then (Json.joinPair m n).toNat :: codes rest
      else m :: codes ('\\' :: 'u' :: e :: f :: g :: h :: rest)
    | m, _ => m.getD noCharacter :: codes ('\\' :: 'u' :: e :: f :: g :: h :: rest)
  | '\\' :: 'u' :: a :: b :: c :: d :: rest => (Json.unit? a b c d).getD noCharacter :: codes rest
  | '\\' :: 'u' :: _ => [noCharacter]
  | '\\' :: 'x' :: a :: b :: rest => (Json.unit? '0' '0' a b).getD noCharacter :: codes rest
  | ['\\'] => [noCharacter]
  | '\\' :: c :: rest => letterCode c :: codes rest
  | c :: rest => c.toNat :: codes rest

/-- The text that a spelling stands for. Escapes that are none are left out. -/
def unescape (spelling : List Char) : String :=
  String.ofList (((codes spelling).filter (· ≠ noCharacter)).map fun n =>
    if n.isValidChar then Char.ofNat n else '\uFFFD')

/-- Whether a name is spelled by a key. Only where a key may have escapes are they seen in it. -/
def spells (mayEscape : Bool) (key name : List Char) : Bool :=
  let ofKey := if mayEscape && key.contains '\\' then codes key else key.map Char.toNat
  ofKey.takeWhile (· ≠ 0) = (codes name).takeWhile (· ≠ 0)

def member? (mayEscape : Bool) (key : List Char) : List (List Char × StoredJson) → Option StoredJson
  | [] => none
  | (name, v) :: rest => if spells mayEscape key name then some v else member? mayEscape key rest

end StoredJson

end SearchFilter.Table
