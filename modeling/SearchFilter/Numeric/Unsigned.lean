/-!
# Unsigned numbers in texts

Decimal digits, after a plus sign if there is one. The first character at which the text is no
number of the wanted size decides what is said of it.
-/

namespace SearchFilter.Numeric

/-- Why a text is no number of the wanted size. -/
inductive DigitFault where
  | nothing
  | noDigit
  | tooLarge
deriving DecidableEq, Repr

def DigitFault.message : DigitFault → String
  | .nothing => "cannot parse integer from empty string"
  | .noDigit => "invalid digit found in string"
  | .tooLarge => "number too large to fit in target type"

/-- Reads digits behind a number that has been read so far. -/
def readDigits (max : Nat) : (value : Nat) → List Char → Except DigitFault Nat
  | value, [] => .ok value
  | value, c :: rest =>
    if ¬ c.isDigit then .error .noDigit
    else
      let next := 10 * value + (c.toNat - 48)
      if max < next then .error .tooLarge else readDigits max next rest

def readUnsigned (max : Nat) (s : String) : Except DigitFault Nat :=
  match s.toList with
  | [] => .error .nothing
  | ['+'] => .error .noDigit
  | '+' :: rest => readDigits max 0 rest
  | cs => readDigits max 0 cs

example : readUnsigned 255 "+007" = .ok 7 := by cbv

example : readUnsigned 255 "256x" = .error .tooLarge := by cbv

end SearchFilter.Numeric
