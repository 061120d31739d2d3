import SearchFilter.Numeric.Decimal

/-!
# JSON numbers

Three kinds of numbers are told apart: natural numbers and negative integers of 64 bits, kept
exactly, and doubles, which take every number with a fraction, an exponent or too many digits.
-/

namespace SearchFilter.Json

inductive Number where
  | natural (n : Nat)
  /-- The number `-n`, for a positive `n`. -/
  | negative (n : Nat)
  | double (isNegative : Bool) (magnitude : Double)
deriving DecidableEq, Repr

namespace Number

/-- How the text of a double is laid out. -/
structure Layout where
  /-- The point may stand this many places right of the first place of the digits. -/
  pointMax : Int
  /-- The point stands more than this many places right of the first place of the digits. -/
  pointMin : Int

/-- Positional notation from `10 ^ -5` up to below `10 ^ 16`. -/
def layout : Layout := ⟨16, -5⟩

def decimalText (n : Nat) : List Char := Decimal.digitsOf n

/-- Writes `digits * 10 ^ exponent`: positional notation with a fraction, or one digit before the
point and an exponent with its sign. -/
def Layout.write (l : Layout) (x : Decimal) : List Char :=
  let ds := decimalText x.digits
  let point : Int := ds.length + x.exponent
  if 0 ≤ x.exponent ∧ point ≤ l.pointMax then
    ds ++ List.replicate x.exponent.toNat '0' ++ ['.', '0']
  else if 0 < point ∧ point ≤ l.pointMax then
    ds.take point.toNat ++ '.' :: ds.drop point.toNat
  else if l.pointMin < point ∧ point ≤ 0 then
    '0' :: '.' :: List.replicate (-point).toNat '0' ++ ds
  else
    let e := point - 1
    let fraction := match ds.drop 1 with
      | [] => []
      | rest => '.' :: rest
    ds.take 1 ++ fraction ++ 'e' :: (if e < 0 then '-' else '+') :: decimalText e.natAbs

/-- The text of a double without its sign: the fewest digits that read back. -/
def doubleText (x : Double) : List Char :=
  if x.isZero then ['0', '.', '0'] else layout.write (Decimal.shortest x)

def textList : Number → List Char
  | .natural n => decimalText n
  | .negative n => '-' :: decimalText n
  | .double neg x => if neg then '-' :: doubleText x else doubleText x

def text (n : Number) : String := String.ofList n.textList

end Number

/-- The parts of a number's literal: the digits before the point, those behind it, and the
exponent if there is one. -/
structure Literal where
  isNegative : Bool
  whole : List Nat
  fraction : List Nat
  /-- Whether the literal has a point or an exponent. -/
  isInteger : Bool
  exponent : Option (Bool × List Nat)

namespace Literal

def wordMax : Nat := UInt64.size - 1

/-- Digits gathered into 64 bits, the digits that no longer fit counted. -/
structure Significand where
  value : Nat
  exponent : Int
deriving DecidableEq, Repr

/-- Gathers the digits before the point: from the first one that does not fit on, each is dropped
and multiplies by ten instead. -/
def gatherWhole (value : Nat) : List Nat → Significand
  | [] => ⟨value, 0⟩
  | d :: ds =>
    if wordMax < value * 10 + d then ⟨value, (ds.length : Int) + 1⟩
    else gatherWhole (value * 10 + d) ds

/-- Gathers the digits behind the point up to the first one that does not fit. -/
def gatherFraction (s : Significand) : List Nat → Significand
  | [] => s
  | d :: ds =>
    if wordMax < s.value * 10 + d then s
    else gatherFraction ⟨s.value * 10 + d, s.exponent - 1⟩ ds

def significand (l : Literal) : Significand := gatherFraction (gatherWhole 0 l.whole) l.fraction

/-- The greatest exponent that is still counted. -/
def exponentMax : Nat := Int32.maxValue.toInt.toNat

/-- The digits of an exponent up to the one that takes it past the greatest, with the number of
digits read, or the exponent they spell. -/
def gatherExponent (value : Nat) (read : Nat) : List Nat → Nat ⊕ Nat
  | [] => .inr value
  | d :: ds =>
    if exponentMax < value * 10 + d then .inl (read + 1)
    else gatherExponent (value * 10 + d) (read + 1) ds

/-- Keeps a sum of exponents within 32 bits. -/
def clampExponent (e : Int) : Int := max Int32.minValue.toInt (min e Int32.maxValue.toInt)

/-- How the reading of a literal ends when its value has no place. -/
inductive Overflow where
  /-- Noticed after this many digits of the exponent. -/
  | withinExponent (digits : Nat)
  | atEnd
deriving DecidableEq, Repr

def double (isNegative : Bool) (significand : Nat) (exponent : Int) : Except Overflow Number :=
  match Double.ofScientific? significand exponent with
  | some x => .ok (.double isNegative x)
  | none => .error .atEnd

/-- The value of a literal. An integer that fits into 64 bits is kept, except that `-0` is the
double; everything else becomes a double. -/
def value (l : Literal) : Except Overflow Number :=
  let s := l.significand
  match l.exponent with
  | some (isNegative, ds) =>
    match gatherExponent 0 0 ds with
    | .inl read =>
      if s.value ≠ 0 ∧ isNegative = false then .error (.withinExponent read)
      else .ok (.double l.isNegative Double.zero)
    | .inr e =>
      let sum := if isNegative then s.exponent - e else s.exponent + e
      double l.isNegative s.value (clampExponent sum)
  | none =>
    if l.isInteger ∧ s.exponent = 0 then
      if l.isNegative = false then .ok (.natural s.value)
      else if 0 < s.value ∧ s.value ≤ Int64.minValue.toInt.natAbs then .ok (.negative s.value)
      else double true s.value 0
    else double l.isNegative s.value s.exponent

end Literal

end SearchFilter.Json
