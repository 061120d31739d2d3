import SearchFilter.Json.Token

/-!
# Skipping JSON values

A value that nobody wants is passed over: only its brackets, quotes and literals have to be in
order. It may be nested as deep as it likes, its numbers may be of any size and its surrogates need
no partner.
-/

namespace SearchFilter.Json

def skipString : List Char → Except Fault (List Char)
  | [] => faultBefore .endOfString []
  | '"' :: rest => .ok rest
  | '\\' :: 'u' :: a :: b :: c :: d :: rest =>
    match unit? a b c d with
    | none => badUnit (a :: b :: c :: d :: rest)
    | some _ => skipString rest
  | '\\' :: 'u' :: rest => badUnit rest
  | ['\\'] => faultBefore .endOfString []
  | '\\' :: c :: rest =>
    match shortEscape? c with
    | some _ => skipString rest
    | none => faultAt .invalidEscape (c :: rest)
  | c :: rest =>
    if c.toNat < 0x20 then faultBefore .controlCharacter (c :: rest) else skipString rest

def skipExponentDigits : List Char → Except Fault (List Char)
  | [] => faultBefore .invalidNumber []
  | c :: rest => if c.isDigit then .ok (dropDigits rest) else faultAt .invalidNumber (c :: rest)

def skipExponent : List Char → Except Fault (List Char)
  | [] => .ok []
  | c :: rest =>
    if c = 'e' || c = 'E' then
      match rest with
      | '+' :: rest => skipExponentDigits rest
      | '-' :: rest => skipExponentDigits rest
      | rest => skipExponentDigits rest
    else .ok (c :: rest)

/-- Skips what stands behind the digits before the point. -/
def skipFraction : List Char → Except Fault (List Char)
  | '.' :: rest =>
    if (leadingDigits rest).isEmpty then faultAt .invalidNumber rest
    else skipExponent (dropDigits rest)
  | rest => skipExponent rest

def skipNumber : List Char → Except Fault (List Char)
  | [] => faultBefore .invalidNumber []
  | c :: rest =>
    if c = '0' then
      match rest with
      | d :: _ => if d.isDigit then faultAt .invalidNumber rest else skipFraction rest
      | [] => .ok []
    else if c.isDigit then skipFraction (dropDigits rest)
    else faultAt .invalidNumber (c :: rest)

def skipScalar : List Char → Except Fault (List Char)
  | [] => faultBefore .endOfValue []
  | c :: rest =>
    if c = 'n' then readLetters ['u', 'l', 'l'] rest
    else if c = 't' then readLetters ['r', 'u', 'e'] rest
    else if c = 'f' then readLetters ['a', 'l', 's', 'e'] rest
    else if c = '"' then skipString rest
    else if c = '-' then skipNumber rest
    else if c.isDigit then skipNumber (c :: rest)
    else faultAt .expectedValue (c :: rest)

inductive Bracket where
  | list
  | object
deriving DecidableEq, Repr

namespace Bracket

def closing : Bracket → Char
  | list => ']'
  | object => '}'

def endMissing : Bracket → Cause
  | list => .endOfList
  | object => .endOfObject

def endExpected : Bracket → Cause
  | list => .expectedListEnd
  | object => .expectedObjectEnd

end Bracket

/-- What has to come next: a value, the first item of the innermost container or its end, an item,
or what stands behind an item. -/
inductive Expecting where
  | value
  | first
  | item
  | behind
deriving DecidableEq, Repr

def skipName : List Char → Except Fault (List Char)
  | [] => faultBefore .endOfObject []
  | '"' :: rest => do
    match skipBlank (← skipString rest) with
    | [] => faultBefore .endOfObject []
    | ':' :: rest => .ok rest
    | rest => faultAt .expectedColon rest
  | rest => faultAt .keyNotString rest

/-- Skips on inside of the containers that are still open, the innermost one first. Every two steps
take a character, which bounds their number. -/
def skipOn : (bound : Nat) → Expecting → List Bracket → List Char → Except Fault (List Char)
  | 0, _, _, cs => faultBefore .endOfValue cs
  | bound + 1, .value, opened, cs =>
    match skipBlank cs with
    | '[' :: rest => skipOn bound .first (.list :: opened) rest
    | '{' :: rest => skipOn bound .first (.object :: opened) rest
    | rest => do skipOn bound .behind opened (← skipScalar rest)
  | _ + 1, .first, [], cs => .ok cs
  | bound + 1, .first, b :: opened, cs =>
    match skipBlank cs with
    | [] => faultBefore b.endMissing []
    | c :: rest =>
      if c = b.closing then skipOn bound .behind opened rest
      else skipOn bound .item (b :: opened) (c :: rest)
  | _ + 1, .item, [], cs => .ok cs
  | bound + 1, .item, .list :: opened, cs => skipOn bound .value (.list :: opened) cs
  | bound + 1, .item, .object :: opened, cs => do
    skipOn bound .value (.object :: opened) (← skipName (skipBlank cs))
  | _ + 1, .behind, [], cs => .ok cs
  | bound + 1, .behind, b :: opened, cs =>
    match skipBlank cs with
    | [] => faultBefore b.endMissing []
    | c :: rest =>
      if c = ',' then skipOn bound .item (b :: opened) rest
      else if c = b.closing then skipOn bound .behind opened rest
      else faultAt b.endExpected (c :: rest)

def skipValue (cs : List Char) : Except Fault (List Char) :=
  skipOn (3 * cs.length + 3) .value [] cs

end SearchFilter.Json
