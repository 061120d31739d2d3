import SearchFilter.Numeric.Double

/-!
# Decimals of a double

The order of magnitude of a positive quotient and the shortest decimal that stands for a double.
-/

namespace SearchFilter

/-- The number `digits * 10 ^ exponent`. -/
structure Decimal where
  digits : Nat
  exponent : Int
deriving DecidableEq, Repr

namespace Decimal

open Numeric (tenPow twoPow)

def digitsOf (n : Nat) : List Char := Nat.toDigits 10 n

/-- The greatest `p` with `10 ^ p ≤ num / den`, for a positive quotient. -/
def magnitude (num den : Nat) : Int :=
  if den ≤ num then ((digitsOf (num / den)).length : Int) - 1
  else
    let t := (digitsOf (den / num)).length - 1
    if den ≤ num * tenPow t then -(t : Int) else -(t : Int) - 1

/-- The pair whose quotient is `num / den / 10 ^ e`. -/
def shift (num den : Nat) (e : Int) : Nat × Nat :=
  if 0 ≤ e then (num, den * tenPow e.toNat) else (num * tenPow (-e).toNat, den)

/-- Divides out the factors of ten, at most as many as there are digits. -/
def stripZeros (x : Decimal) : Decimal := go (digitsOf x.digits).length x
where
  go : Nat → Decimal → Decimal
    | 0, x => x
    | n + 1, x =>
      if x.digits ≠ 0 ∧ x.digits % 10 = 0 then go n ⟨x.digits / 10, x.exponent + 1⟩ else x

/-- The numbers that round to a double: from `low / den` to `high / den`, the ends included when
the mantissa is even. -/
structure Cell where
  low : Nat
  value : Nat
  high : Nat
  den : Nat
  closed : Bool

/-- The cell of a positive double. Below a power of two the next double is half as far away. -/
def Cell.of (x : Double) : Cell :=
  let gap := if x.mantissa = twoPow 52 ∧ -1074 < x.exponent then 1 else 2
  let e := x.exponent - 2
  let up := twoPow e.toNat
  { low := (4 * x.mantissa - gap) * up
    value := 4 * x.mantissa * up
    high := (4 * x.mantissa + 2) * up
    den := twoPow (-e).toNat
    closed := x.mantissa % 2 = 0 }

/-- Whether `digits * 10 ^ e` lies in the cell. -/
def Cell.holds (c : Cell) (e : Int) (digits : Nat) : Bool :=
  let a := digits * tenPow e.toNat * c.den
  let s := tenPow (-e).toNat
  if c.closed then c.low * s ≤ a && a ≤ c.high * s else c.low * s < a && a < c.high * s

/-- The members of the cell with `n` significant digits next to its value, the nearer one first;
of two equally near ones the even one. -/
def Cell.nearest? (c : Cell) (n : Nat) : Option Decimal :=
  let e := magnitude c.value c.den - n + 1
  let (a, b) := shift c.value c.den e
  let below := a / b
  let twice := 2 * (a % b)
  let down := c.holds e below
  let up := c.holds e (below + 1)
  if down && (!up || twice < b || (twice = b && below % 2 = 0)) then some ⟨below, e⟩
  else if up then some ⟨below + 1, e⟩
  else none

/-- The decimal with the fewest digits that rounds to the positive double, and the nearest such
one. Seventeen digits always suffice. -/
def shortest (x : Double) : Decimal :=
  let c := Cell.of x
  (((List.range 17).findSome? fun n => c.nearest? (n + 1)).getD ⟨x.num / x.den, 0⟩).stripZeros

end Decimal

end SearchFilter
