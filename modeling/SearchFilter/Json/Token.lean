import SearchFilter.Json.Basic
import SearchFilter.Json.Fault
import SearchFilter.Text.Digit

/-!
# The parts of a JSON text without parts of their own

Blanks, the three literal names, strings and numbers. Each reader takes the text from where its
part starts and leaves the rest.
-/

namespace SearchFilter.Json

open Text (hexDigit?)

/-- The blanks of JSON: space, line feed, tab and carriage return. -/
def isBlank (c : Char) : Bool := c = ' ' || c = '\n' || c = '\t' || c = '\r'

def skipBlank (cs : List Char) : List Char := cs.dropWhile isBlank

/-- Reads the letters of a literal name. -/
def readLetters : (letters : List Char) → List Char → Except Fault (List Char)
  | [], cs => .ok cs
  | _ :: _, [] => faultBefore .endOfValue []
  | e :: es, c :: cs => if c = e then readLetters es cs else faultAt .expectedIdent (c :: cs)

/-- The code unit that four hexadecimal digits spell. -/
def unit? (a b c d : Char) : Option Nat := do
  return (← hexDigit? a) * 4096 + (← hexDigit? b) * 256 + (← hexDigit? c) * 16 + (← hexDigit? d)

/-- An escape wants four bytes, whatever they are, before it looks at them. -/
def badUnit {α : Type} (cs : List Char) : Except Fault α :=
  if 4 ≤ byteCount (cs.take 4) then .error ⟨.invalidEscape, cs, 4⟩ else faultBefore .endOfString []

def isLead (n : Nat) : Bool := 0xD800 ≤ n && n ≤ 0xDBFF

def isTrail (n : Nat) : Bool := 0xDC00 ≤ n && n ≤ 0xDFFF

/-- The character that two surrogates stand for. -/
def joinPair (lead trail : Nat) : Char :=
  Char.ofNat ((lead - 0xD800) * 1024 + (trail - 0xDC00) + 0x10000)

/-- The character of an escape with a single letter. -/
def shortEscape? (c : Char) : Option Char :=
  if c = '"' || c = '\\' || c = '/' then some c
  else if c = 'b' then some '\x08'
  else if c = 'f' then some '\x0c'
  else if c = 'n' then some '\n'
  else if c = 'r' then some '\r'
  else if c = 't' then some '\t'
  else none

/-- Reads a string behind its opening quote; `read` holds the characters read so far, the last one
first. -/
def readStringFrom (read : List Char) : List Char → Reading String
  | [] => faultBefore .endOfString []
  | '"' :: rest => .ok (String.ofList read.reverse, rest)
  | '\\' :: 'u' :: a :: b :: c :: d :: rest =>
    match unit? a b c d with
    | none => badUnit (a :: b :: c :: d :: rest)
    | some n =>
      if isTrail n then faultBefore .loneSurrogate rest
      else if isLead n then
        match rest with
        | '\\' :: 'u' :: e :: f :: g :: h :: rest =>
          match unit? e f g h with
          | none => badUnit (e :: f :: g :: h :: rest)
          | some m =>
            if isTrail m then readStringFrom (joinPair n m :: read) rest
            else faultBefore .loneSurrogate rest
        | '\\' :: 'u' :: rest => badUnit rest
        | ['\\'] => faultBefore .endOfString []
        | '\\' :: rest => faultAt .unfinishedPair rest
        | [] => faultBefore .endOfString []
        | rest => faultAt .unfinishedPair rest
      else readStringFrom (Char.ofNat n :: read) rest
  | '\\' :: 'u' :: rest => badUnit rest
  | ['\\'] => faultBefore .endOfString []
  | '\\' :: c :: rest =>
    match shortEscape? c with
    | some e => readStringFrom (e :: read) rest
    | none => faultAt .invalidEscape (c :: rest)
  | c :: rest =>
    if c.toNat < 0x20 then faultAt .controlCharacter (c :: rest)
    else readStringFrom (c :: read) rest

def readString (cs : List Char) : Reading String := readStringFrom [] cs

def leadingDigits (cs : List Char) : List Nat :=
  (cs.takeWhile Char.isDigit).map fun c => c.toNat - 48

def dropDigits (cs : List Char) : List Char := cs.dropWhile Char.isDigit

/-- Reads the digits before the point: one or more, without a leading zero. -/
def readWhole : List Char → Reading (List Nat)
  | [] => faultBefore .endOfValue []
  | c :: rest =>
    if c = '0' then
      match rest with
      | d :: _ => if d.isDigit then faultAt .invalidNumber rest else .ok ([0], rest)
      | [] => .ok ([0], [])
    else if c.isDigit then .ok (leadingDigits (c :: rest), dropDigits (c :: rest))
    else faultAt .invalidNumber (c :: rest)

/-- Reads a point and the digits behind it, if there is a point. -/
def readFraction : List Char → Reading (Option (List Nat))
  | '.' :: rest =>
    match leadingDigits rest, rest with
    | [], [] => faultBefore .endOfValue []
    | [], rest => faultAt .invalidNumber rest
    | digits, rest => .ok (some digits, dropDigits rest)
  | cs => .ok (none, cs)

def readExponentDigits (isNegative : Bool) : List Char → Reading (Option (Bool × List Nat))
  | [] => faultBefore .endOfValue []
  | c :: rest =>
    if c.isDigit then .ok (some (isNegative, leadingDigits (c :: rest)), dropDigits (c :: rest))
    else faultAt .invalidNumber (c :: rest)

def readExponent : List Char → Reading (Option (Bool × List Nat))
  | [] => .ok (none, [])
  | c :: rest =>
    if c = 'e' || c = 'E' then
      match rest with
      | '+' :: rest => readExponentDigits false rest
      | '-' :: rest => readExponentDigits true rest
      | rest => readExponentDigits false rest
    else .ok (none, c :: rest)

/-- Reads a number behind its sign. A value out of range is noticed behind the literal, or within
the exponent behind the digit that takes it past its limit. -/
def readNumber (isNegative : Bool) (cs : List Char) : Except Fault (Number × List Char) := do
  let (whole, cs) ← readWhole cs
  let (fraction, cs) ← readFraction cs
  let behindPoint := cs
  let (exponent, cs) ← readExponent cs
  let literal : Literal :=
    { isNegative, whole, fraction := fraction.getD [], exponent
      isInteger := fraction.isNone && exponent.isNone }
  match literal.value with
  | .ok n => .ok (n, cs)
  | .error .atEnd => faultBefore .numberOutOfRange cs
  | .error (.withinExponent digits) =>
    faultBefore .numberOutOfRange ((behindPoint.dropWhile fun c => !c.isDigit).drop digits)

/-- Reads a value that is no container. -/
def readScalar : List Char → Reading Json
  | [] => faultBefore .endOfValue []
  | c :: rest =>
    if c = 'n' then (readLetters ['u', 'l', 'l'] rest).map fun rest => (.null, rest)
    else if c = 't' then (readLetters ['r', 'u', 'e'] rest).map fun rest => (.bool true, rest)
    else if c = 'f' then (readLetters ['a', 'l', 's', 'e'] rest).map fun rest => (.bool false, rest)
    else if c = '"' then (readString rest).map fun (s, rest) => (.string s, rest)
    else if c = '-' then (readNumber true rest).map fun (n, rest) => (.number n, rest)
    else if c.isDigit then (readNumber false (c :: rest)).map fun (n, rest) => (.number n, rest)
    else faultAt .expectedValue (c :: rest)

end SearchFilter.Json
