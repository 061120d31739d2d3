import SearchFilter.Json.Basic

/-!
# Writing JSON

The compact text of a value has no blanks. The indented text puts every item on a line of its own,
two spaces deeper than its container; empty containers stay on one line.
-/

namespace SearchFilter.Json

/-- The digit of a value below sixteen, with small letters. -/
def hexDigit (n : Nat) : Char := Nat.digitChar n

/-- Quotes and backslashes take a backslash, the five common control characters their short form,
the other characters below a space four hexadecimal digits. -/
def escape (c : Char) : List Char :=
  if c = '"' then ['\\', '"']
  else if c = '\\' then ['\\', '\\']
  else if c = '\x08' then ['\\', 'b']
  else if c = '\x0c' then ['\\', 'f']
  else if c = '\n' then ['\\', 'n']
  else if c = '\r' then ['\\', 'r']
  else if c = '\t' then ['\\', 't']
  else if c.toNat < 0x20 then
    ['\\', 'u', '0', '0', hexDigit (c.toNat / 16), hexDigit (c.toNat % 16)]
  else [c]

def writeString (s : String) : List Char := '"' :: s.toList.flatMap escape ++ ['"']

mutual

def write : Json → List Char
  | .null => "null".toList
  | .bool true => "true".toList
  | .bool false => "false".toList
  | .number n => n.textList
  | .string s => writeString s
  | .array items => '[' :: writeItems items ++ [']']
  | .object members => '{' :: writeMembers members ++ ['}']

def writeItems : List Json → List Char
  | [] => []
  | [v] => write v
  | v :: w :: rest => write v ++ ',' :: writeItems (w :: rest)

def writeMembers : List (String × Json) → List Char
  | [] => []
  | [(k, v)] => writeString k ++ ':' :: write v
  | (k, v) :: m :: rest => writeString k ++ ':' :: write v ++ ',' :: writeMembers (m :: rest)

end

def compact (v : Json) : String := String.ofList (write v)

/-- A line break and the indentation of a depth. -/
def newline (depth : Nat) : List Char := '\n' :: List.replicate (2 * depth) ' '

mutual

/-- The indented text of a value whose line is indented by `depth`. -/
def writeIndented (depth : Nat) : Json → List Char
  | .array [] => ['[', ']']
  | .array (v :: vs) => '[' :: indentedItems (depth + 1) (v :: vs) ++ newline depth ++ [']']
  | .object [] => ['{', '}']
  | .object (m :: ms) => '{' :: indentedMembers (depth + 1) (m :: ms) ++ newline depth ++ ['}']
  | .null => "null".toList
  | .bool b => write (.bool b)
  | .number n => n.textList
  | .string s => writeString s

def indentedItems (depth : Nat) : List Json → List Char
  | [] => []
  | [v] => newline depth ++ writeIndented depth v
  | v :: w :: rest =>
    newline depth ++ writeIndented depth v ++ ',' :: indentedItems depth (w :: rest)

def indentedMembers (depth : Nat) : List (String × Json) → List Char
  | [] => []
  | [(k, v)] => newline depth ++ writeString k ++ ':' :: ' ' :: writeIndented depth v
  | (k, v) :: m :: rest =>
    newline depth ++ writeString k ++ ':' :: ' ' :: writeIndented depth v ++
      ',' :: indentedMembers depth (m :: rest)

end

def indented (v : Json) : String := String.ofList (writeIndented 0 v)

end SearchFilter.Json
