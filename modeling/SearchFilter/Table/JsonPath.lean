import SearchFilter.Table.StoredJson
import SearchFilter.Table.Value

/-!
# Looking into stored JSON

A key is made into a path. One that starts with a dollar sign is a path already, and so is one
between brackets; every other key becomes a step to the member of that name, between quotes unless
it has letters and digits only. The steps of a path lead to members behind points, and to items in
brackets, counted from the front or, behind `#`, from the back.
-/

namespace SearchFilter.Table

/-- Why the engine gives up on a row. -/
inductive Refusal where
  | malformedJson
  | badPath
  | unknownColumn
  | unreadable
  /-- The condition has too many levels. -/
  | tooDeep
  | tooManyValues
  | patternTooLong
deriving DecidableEq, Repr

inductive PathStep where
  /-- The member that is spelled so; between quotes escapes count. -/
  | member (isQuoted : Bool) (name : List Char)
  | item (index : Nat)
  /-- An item by its distance from the end, where the last item has distance one. -/
  | fromEnd (distance : Nat)
deriving DecidableEq, Repr

namespace PathStep

def follow (s : PathStep) (v : StoredJson) : Option StoredJson :=
  match s, v with
  | member isQuoted name, .object members => StoredJson.member? isQuoted name members
  | item i, .array items => items[i]?
  | fromEnd d, .array items => if d ≤ items.length then items[items.length - d]? else none
  | _, _ => none

/-- Counts of items have 32 bits. -/
def count (digits : List Char) : Nat := Text.digitsValue digits % UInt32.size

/-- An item's place behind an opening bracket, up to the closing one. -/
def bracket? (cs : List Char) : Option PathStep :=
  match cs with
  | '#' :: '-' :: ds =>
    if ds.isEmpty || ds.any (fun c => !c.isDigit) then none else some (fromEnd (count ds))
  | ['#'] => some (fromEnd 0)
  | ds => if ds.isEmpty || ds.any (fun c => !c.isDigit) then none else some (item (count ds))

def first? : List Char → Option (PathStep × List Char)
  | '.' :: '"' :: rest =>
    match rest.dropWhile (· ≠ '"') with
    | [] => none
    | _ :: behind => some (member true (rest.takeWhile (· ≠ '"')), behind)
  | '.' :: rest =>
    let isEnd (c : Char) : Bool := c = '.' || c = '['
    match rest.takeWhile (!isEnd ·) with
    | [] => none
    | name => some (member false name, rest.dropWhile (!isEnd ·))
  | '[' :: rest =>
    match rest.dropWhile (· ≠ ']') with
    | [] => none
    | _ :: behind => (bracket? (rest.takeWhile (· ≠ ']'))).map fun s => (s, behind)
  | _ => none

end PathStep

/-- A bracket is looked at only where there are items. -/
def skipsBracket (path : List Char) (v : StoredJson) : Bool :=
  match path, v with
  | '[' :: _, .array _ => false
  | '[' :: _, _ => true
  | _, _ => false

/-- Follows a path of at most `bound` steps. What stands behind a step that leads nowhere is not
looked at. -/
def followPath : (bound : Nat) → List Char → StoredJson → Except Refusal (Option StoredJson)
  | _, [], v => .ok (some v)
  | 0, _ :: _, _ => .error .badPath
  | bound + 1, c :: rest, v =>
    if skipsBracket (c :: rest) v then .ok none
    else
      match PathStep.first? (c :: rest) with
      | none => .error .badPath
      | some (s, behind) =>
        match s.follow v with
        | none => .ok none
        | some w => followPath bound behind w

/-- The path that a key is made into. A key ends at its first null character. -/
def pathOf (key : String) : List Char :=
  let cs := key.toList.takeWhile fun c => c.toNat ≠ 0
  match cs with
  | '$' :: path => path
  | _ =>
    if cs.all Char.isAlphanum then '.' :: cs
    else if cs.head? = some '[' ∧ cs.getLast? = some ']' ∧ 3 ≤ (String.ofList cs).utf8ByteSize then
      cs
    else ['.', '"'] ++ cs ++ ['"']

def followKey (key : String) (v : StoredJson) : Except Refusal (Option StoredJson) :=
  followPath (pathOf key).length (pathOf key) v

/-- Follows the keys one after the other. Below nothing there is nothing, whatever the key. -/
def followKeys : List String → Option StoredJson → Except Refusal (Option StoredJson)
  | [], v => .ok v
  | _ :: _, none => .ok none
  | key :: keys, some v => do followKeys keys (← followKey key v)

/-- A number of JSON as a stored value. -/
def Value.ofSpelling (spelling : List Char) : Value :=
  ((NumberText.read? (String.ofList spelling)).map ofNumberText).getD .null

/-- What the step that takes the text yields: strings as they are, numbers as numbers, truth values
as one and zero, null as nothing, containers as their spelling without blanks. -/
def Value.ofJson : StoredJson → Value
  | .null => .null
  | .bool b => .integer (if b then 1 else 0)
  | .number s => .ofSpelling s
  | .string s => .text (StoredJson.unescape s)
  | .array items => .text (StoredJson.array items).text
  | .object members => .text (StoredJson.object members).text

/-- The value at the end of a walk from a cell. A cell with nothing in it leads to nothing. -/
def Value.walk (cell : Value) (keys : List String) (takesText : Bool) : Except Refusal Value :=
  match cell.toText with
  | .text s =>
    match StoredJson.read? s with
    | none => .error .malformedJson
    | some v => do
      match ← followKeys keys (some v) with
      | none => return .null
      | some v => return if takesText then .ofJson v else .text v.text
  | _ => .ok .null

end SearchFilter.Table
