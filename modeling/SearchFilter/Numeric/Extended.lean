import SearchFilter.Numeric.Double

/-!
# Intermediate results

Numbers with 64 significant bits, in which doubles are scaled by powers of ten. Every multiplication
is rounded, and so are the powers of ten, so that what comes out may be off by some units in the
last place.
-/

namespace SearchFilter

/-- The number `mantissa * 2 ^ exponent`. Exponents have no bounds. -/
structure Extended where
  mantissa : Nat
  exponent : Int
deriving DecidableEq, Repr

namespace Extended

open Numeric (tenPow twoPow)

/-- The number nearest to a positive quotient, a tie to the even one. -/
def ofQuotient (num den : Nat) : Extended :=
  -- `num / den / 2 ^ guess` lies strictly between `2 ^ 63` and `2 ^ 65`
  let guess : Int := num.log2 - den.log2 - 64
  let (n, d) := Double.shift num den guess
  let e := if n / d < twoPow 64 then guess else guess + 1
  let (n, d) := Double.shift num den e
  ⟨Double.nearestEven n d, e⟩

def num (x : Extended) : Nat := x.mantissa * twoPow x.exponent.toNat

def den (x : Extended) : Nat := twoPow (-x.exponent).toNat

def mul (x y : Extended) : Extended := ofQuotient (x.num * y.num) (x.den * y.den)

def isBelow (x y : Extended) : Bool := x.num * y.den < y.num * x.den

/-- The number nearest to `10 ^ k`. -/
def tenTo (k : Int) : Extended := ofQuotient (tenPow k.toNat) (tenPow (-k).toNat)

def mulRepeated (x factor : Extended) : (times : Nat) → Extended
  | 0 => x
  | times + 1 => mulRepeated (x.mul factor) factor times

/-- Multiplies by `10 ^ e`: first by powers of `10 ^ 100`, then by powers of `10 ^ 10` and of
ten. -/
def scale (x : Extended) (e : Int) : Extended :=
  let n := e.natAbs
  let factor (k : Nat) : Extended := tenTo (if e < 0 then -(k : Int) else k)
  ((x.mulRepeated (factor 100) (n / 100)).mulRepeated (factor 10) (n % 100 / 10)).mulRepeated
    (factor 1) (n % 10)

/-- Multiplies by `10 ^ step` as long as the number goes on. The exponent makes up for it. -/
def scaleWhile (goesOn : Extended → Bool) (step : Int) :
    (bound : Nat) → Extended × Int → Extended × Int
  | 0, x => x
  | bound + 1, (x, e) =>
    if goesOn x then scaleWhile goesOn step bound (x.mul (tenTo step), e - step) else (x, e)

/-- Scales a number to lie between `10 ^ 17` and `10 ^ 19`, together with the exponent of ten that
makes up for it. No double takes more than twenty steps of a kind. -/
def normalize (x : Extended) : Extended × Int :=
  if x.isBelow (tenTo 19) then
    scaleWhile (·.isBelow (tenTo 17)) 1 20 <|
      scaleWhile (·.isBelow (tenTo 7)) 10 20 <|
        scaleWhile (·.isBelow (tenTo (-97))) 100 20 (x, 0)
  else
    scaleWhile (!·.isBelow (tenTo 19)) (-1) 20 <|
      scaleWhile (!·.isBelow (tenTo 29)) (-10) 20 <|
        scaleWhile (!·.isBelow (tenTo 119)) (-100) 20 (x, 0)

end Extended

end SearchFilter
