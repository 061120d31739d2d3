import SearchFilter.Numeric.Power

/-!
# Binary floating-point numbers

Finite numbers with 53 significant bits, held exactly as `mantissa * 2 ^ exponent`, and their
arithmetic as a rounding of exact quotients of natural numbers. The sign is kept by whoever uses
the number.
-/

namespace SearchFilter

/-- The number `mantissa * 2 ^ exponent`. Rounding yields mantissas below `2 ^ 53` and exponents
from `-1074` on, with a mantissa of full length unless the exponent is the least one. -/
structure Double where
  mantissa : Nat
  exponent : Int
deriving DecidableEq, Repr

namespace Double

open Numeric (tenPow twoPow)

/-- The quotient rounded to the nearest natural number, a tie to the even one. -/
def nearestEven (num den : Nat) : Nat :=
  let q := num / den
  let twice := 2 * (num % den)
  if twice < den then q else if den < twice then q + 1 else q + q % 2

/-- The pair whose quotient is `num / den / 2 ^ e`. -/
def shift (num den : Nat) (e : Int) : Nat × Nat :=
  if 0 ≤ e then (num, den * twoPow e.toNat) else (num * twoPow (-e).toNat, den)

def zero : Double := ⟨0, -1074⟩

/-- The double nearest to `num / den`, or `none` beyond the greatest one. -/
def ofQuotient? (num den : Nat) : Option Double :=
  if num = 0 then some zero
  else
    -- `num / den / 2 ^ guess` lies strictly between `2 ^ 52` and `2 ^ 54`
    let guess : Int := num.log2 - den.log2 - 53
    let (n, d) := shift num den guess
    let e := max (-1074) (if n / d < twoPow 53 then guess else guess + 1)
    let (n, d) := shift num den e
    let m := nearestEven n d
    let (m, e) := if m = twoPow 53 then (twoPow 52, e + 1) else (m, e)
    if 971 < e then none else some ⟨m, e⟩

def num (x : Double) : Nat := x.mantissa * twoPow x.exponent.toNat

def den (x : Double) : Nat := twoPow (-x.exponent).toNat

def isZero (x : Double) : Bool := x.mantissa = 0

def mul? (x y : Double) : Option Double := ofQuotient? (x.num * y.num) (x.den * y.den)

def div? (x y : Double) : Option Double := ofQuotient? (x.num * y.den) (x.den * y.num)

/-- The double nearest to `10 ^ k`, for `k` up to 308. -/
def powerOfTen (k : Nat) : Double := (ofQuotient? (tenPow k) 1).getD zero

/-- Scales by a power of ten with one rounded operation where the power is a double, and by steps
of `10 ^ 308` below that. A significand under `2 ^ 64` is zero after two such steps, so three
rounds are enough; `none` stands for a result beyond the greatest double. -/
def scale? : (rounds : Nat) → Double → (exponent : Int) → Option Double
  | 0, x, _ => some x
  | rounds + 1, x, e =>
    if e.natAbs ≤ 308 then
      if 0 ≤ e then x.mul? (powerOfTen e.natAbs) else x.div? (powerOfTen e.natAbs)
    else if x.isZero then some x
    else if 0 < e then none
    else (x.div? (powerOfTen 308)).bind fun y => scale? rounds y (e + 308)

/-- The value read from `significand * 10 ^ exponent`: the significand is rounded first and then
scaled, so the result may be off the nearest double by a unit in the last place. -/
def ofScientific? (significand : Nat) (exponent : Int) : Option Double :=
  (ofQuotient? significand 1).bind fun x => scale? 3 x exponent

end Double

end SearchFilter
