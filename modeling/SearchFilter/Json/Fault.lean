/-!
# Where and why a JSON text cannot be read

A fault names its cause and the text that was still to be read, so that the reader itself never
counts. The place is worked out afterwards: lines are counted from one, columns in bytes.
-/

namespace SearchFilter.Json

inductive Cause where
  | endOfValue
  | endOfList
  | endOfObject
  | endOfString
  | expectedValue
  | expectedIdent
  | expectedColon
  | expectedListEnd
  | expectedObjectEnd
  | keyNotString
  | trailingComma
  | trailingCharacters
  | invalidNumber
  | numberOutOfRange
  | invalidEscape
  | controlCharacter
  | loneSurrogate
  | unfinishedPair
  | tooDeep
  /-- The text is JSON but not of the shape that its reader wants. -/
  | unwanted (message : String)
deriving DecidableEq, Repr

def Cause.message : Cause → String
  | .endOfValue => "EOF while parsing a value"
  | .endOfList => "EOF while parsing a list"
  | .endOfObject => "EOF while parsing an object"
  | .endOfString => "EOF while parsing a string"
  | .expectedValue => "expected value"
  | .expectedIdent => "expected ident"
  | .expectedColon => "expected `:`"
  | .expectedListEnd => "expected `,` or `]`"
  | .expectedObjectEnd => "expected `,` or `\x7d`"
  | .keyNotString => "key must be a string"
  | .trailingComma => "trailing comma"
  | .trailingCharacters => "trailing characters"
  | .invalidNumber => "invalid number"
  | .numberOutOfRange => "number out of range"
  | .invalidEscape => "invalid escape"
  | .controlCharacter => "control character (\\u0000-\\u001F) found while parsing a string"
  | .loneSurrogate => "lone leading surrogate in hex escape"
  | .unfinishedPair => "unexpected end of hex escape"
  | .tooDeep => "recursion limit exceeded"
  | .unwanted message => message

/-- A cause, the text left when it was noticed, and how many of its bytes the place takes in. -/
structure Fault where
  cause : Cause
  rest : List Char
  ahead : Nat
deriving DecidableEq, Repr

def byteCount (cs : List Char) : Nat := cs.foldl (fun n c => n + c.utf8Size) 0

structure Place where
  line : Nat
  column : Nat
deriving DecidableEq, Repr

/-- The place reached from `p` by reading `bytes` bytes. -/
def Place.advance (p : Place) (bytes : Nat) : List Char → Place
  | [] => p
  | c :: cs =>
    if bytes = 0 then p
    else if c = '\n' then Place.advance ⟨p.line + 1, 0⟩ (bytes - 1) cs
    else Place.advance ⟨p.line, p.column + min bytes c.utf8Size⟩ (bytes - c.utf8Size) cs

def Fault.place (f : Fault) (text : List Char) : Place :=
  Place.advance ⟨1, 0⟩ (byteCount text - byteCount f.rest + f.ahead) text

def Fault.message (f : Fault) (text : List Char) : String :=
  let p := f.place text
  s!"{f.cause.message} at line {p.line} column {p.column}"

/-- Reads a part of a text and leaves the rest. -/
abbrev Reading (α : Type) := Except Fault (α × List Char)

/-- A fault noticed at the next byte, whether that byte was taken or only looked at. -/
def faultAt {α : Type} (cause : Cause) (rest : List Char) : Except Fault α :=
  .error ⟨cause, rest, 1⟩

/-- A fault noticed before the next byte. -/
def faultBefore {α : Type} (cause : Cause) (rest : List Char) : Except Fault α :=
  .error ⟨cause, rest, 0⟩

end SearchFilter.Json
