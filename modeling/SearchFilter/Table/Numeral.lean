import SearchFilter.Numeric.Decimal
import SearchFilter.Numeric.Extended
import SearchFilter.Text.Digit

/-!
# Numbers that are no integers

Cells hold them as doubles. Texts are read to doubles, and doubles are written with fifteen
significant digits, through intermediate results of 64 bits, so that neither yields the nearest
number in every case.
-/

namespace SearchFilter.Table

structure NumberText where
  isNegative : Bool
  whole : List Char
  /-- What stands behind the point, if there is one. -/
  fraction : Option (List Char)
  exponent : Option Int
deriving DecidableEq, Repr

namespace NumberText

/-- The value of an exponent's digits. It does not grow any more once it has five of them. -/
def exponentValue (digits : List Char) : Nat :=
  digits.foldl (fun e c => if e < 10000 then e * 10 + (c.toNat - 48) else 10000) 0

def unsignedExponent? (cs : List Char) : Option Nat :=
  if cs.isEmpty ∨ cs.any (fun c => !c.isDigit) then none else some (exponentValue cs)

def exponent? : List Char → Option Int
  | c :: rest =>
    if c = 'e' ∨ c = 'E' then
      match rest with
      | '-' :: rest => (unsignedExponent? rest).map fun n => -(n : Int)
      | '+' :: rest => (unsignedExponent? rest).map fun n => (n : Int)
      | rest => (unsignedExponent? rest).map fun n => (n : Int)
    else none
  | [] => none

def unsigned? (isNegative : Bool) (cs : List Char) : Option NumberText :=
  let whole := cs.takeWhile Char.isDigit
  let (fraction, rest) := match cs.dropWhile Char.isDigit with
    | '.' :: rest => (some (rest.takeWhile Char.isDigit), rest.dropWhile Char.isDigit)
    | rest => (none, rest)
  if whole.isEmpty ∧ (fraction.getD []).isEmpty then none
  else if rest.isEmpty then some ⟨isNegative, whole, fraction, none⟩
  else (exponent? rest).map fun e => ⟨isNegative, whole, fraction, some e⟩

/-- Takes a text apart that spells a number from its first to its last character, blanks around it
apart. -/
def read? (s : String) : Option NumberText :=
  let isBlank (c : Char) : Bool := c = ' ' || ('\t' ≤ c && c ≤ '\r')
  match ((s.toList.dropWhile isBlank).reverse.dropWhile isBlank).reverse with
  | '-' :: rest => unsigned? true rest
  | '+' :: rest => unsigned? false rest
  | cs => unsigned? false cs

/-- The integer that is spelled, if there is neither a point nor an exponent. -/
def toInt? (t : NumberText) : Option Int :=
  match t.fraction, t.exponent with
  | none, none =>
    let n : Int := Text.digitsValue t.whole
    some (if t.isNegative then -n else n)
  | _, _ => none

/-- A significand takes no more digits once it has reached this. -/
def significandFull : Nat := 1844674407370955160

/-- The significand of the digits before the point. Those that it does not take raise the
exponent. -/
def takeWhole (significand : Nat) : List Char → Nat × Int
  | [] => (significand, 0)
  | c :: rest =>
    if significandFull ≤ significand then (significand, rest.length + 1)
    else takeWhole (significand * 10 + (c.toNat - 48)) rest

/-- Takes the digits behind the point, each of which lowers the exponent. -/
def takeFraction : Nat × Int → List Char → Nat × Int
  | x, [] => x
  | (significand, e), c :: rest =>
    if significand < significandFull then
      takeFraction (significand * 10 + (c.toNat - 48), e - 1) rest
    else (significand, e)

def scientific (t : NumberText) : Nat × Int :=
  let (significand, e) := takeFraction (takeWhole 0 t.whole) (t.fraction.getD [])
  (significand, e + t.exponent.getD 0)

/-- Makes a positive exponent smaller as long as the significand has room. -/
def lowerExponent : (bound : Nat) → Nat × Int → Nat × Int
  | 0, x => x
  | bound + 1, (significand, e) =>
    if 0 < e ∧ significand ≤ significandFull then lowerExponent bound (significand * 10, e - 1)
    else (significand, e)

/-- Makes a negative exponent greater as long as the significand ends in zero. -/
def raiseExponent : (bound : Nat) → Nat × Int → Nat × Int
  | 0, x => x
  | bound + 1, (significand, e) =>
    if e < 0 ∧ significand % 10 = 0 then raiseExponent bound (significand / 10, e + 1)
    else (significand, e)

/-- Beyond these bounds an exponent of ten makes no difference. -/
def exponentBound : Int := 5000

/-- Stands for everything beyond the greatest double. -/
def infinite : Double := ⟨1, 1024⟩

/-- The double that is read from `significand * 10 ^ e`. -/
def double (significand : Nat) (e : Int) : Double :=
  if significand = 0 then .zero
  else
    -- A significand has at most twenty digits.
    let (significand, e) := raiseExponent 20 (lowerExponent 20 (significand, e))
    if e = 0 then (Double.ofQuotient? significand 1).getD infinite
    else
      let e := max (-exponentBound) (min exponentBound e)
      let x := (Extended.ofQuotient significand 1).scale e
      (Double.ofQuotient? x.num x.den).getD infinite

end NumberText

structure Numeral where
  isNegative : Bool
  magnitude : Double
deriving DecidableEq, Repr

namespace Numeral

def ofText (t : NumberText) : Numeral :=
  let (significand, e) := t.scientific
  ⟨t.isNegative, NumberText.double significand e⟩

def num (x : Numeral) : Int := if x.isNegative then -(x.magnitude.num : Int) else x.magnitude.num

def compare (x y : Numeral) : Ordering :=
  Ord.compare (x.num * y.magnitude.den) (y.num * x.magnitude.den)

def compareInt (x : Numeral) (n : Int) : Ordering := Ord.compare x.num (n * x.magnitude.den)

/-- The integer of the same value, if there is one. -/
def toInt? (x : Numeral) : Option Int :=
  if x.num % x.magnitude.den = 0 then some (x.num / x.magnitude.den) else none

/-- Fifteen significant digits of a double, a half rounded up. -/
def digits (x : Double) : Decimal :=
  if x.isZero then ⟨0, 0⟩
  else
    let (y, e) := (Extended.ofQuotient x.num x.den).normalize
    let n := y.num / y.den
    let more := (Decimal.digitsOf n).length - 15
    Decimal.stripZeros ⟨(n / Numeric.tenPow (more - 1) + 5) / 10, e + more⟩

/-- Writes `digits * 10 ^ exponent` with a point: in positional notation from `10 ^ -4` up to below
`10 ^ 15`, else with an exponent of at least two digits. -/
def layOut (d : Decimal) : List Char :=
  let ds := Decimal.digitsOf d.digits
  let point : Int := ds.length + d.exponent
  if d.digits = 0 then ['0', '.', '0']
  else if 0 ≤ d.exponent ∧ point ≤ 15 then
    ds ++ List.replicate d.exponent.toNat '0' ++ ['.', '0']
  else if 0 < point ∧ point ≤ 15 then ds.take point.toNat ++ '.' :: ds.drop point.toNat
  else if -4 < point ∧ point ≤ 0 then '0' :: '.' :: List.replicate (-point).toNat '0' ++ ds
  else
    let e := point - 1
    let fraction := if ds.length = 1 then ['0'] else ds.drop 1
    let exponent := Decimal.digitsOf e.natAbs
    ds.take 1 ++ '.' :: fraction ++ 'e' :: (if e < 0 then '-' else '+') ::
      (List.replicate (2 - exponent.length) '0' ++ exponent)

def text (x : Numeral) : String :=
  let body :=
    if x.magnitude = NumberText.infinite then ['I', 'n', 'f'] else layOut (digits x.magnitude)
  String.ofList (if x.isNegative ∧ ¬ x.magnitude.isZero then '-' :: body else body)

end Numeral

end SearchFilter.Table
