import SearchFilter.Sql.Expression
import SearchFilter.Table.Numeral

/-!
# Stored values

A cell holds nothing, an integer, another number or a text; no cell holds bytes. Numbers come before
texts, numbers compare by value and texts character by character. What the type of a column makes of
a value is its affinity.
-/

namespace SearchFilter.Table

inductive Value where
  | null
  | integer (n : Int)
  | real (x : Numeral)
  | text (s : String)
deriving DecidableEq, Repr

inductive Affinity where
  | none
  | integer
  | text
deriving DecidableEq, Repr

/-- The integers that a cell can hold. -/
def isStorable (n : Int) : Bool := Int64.minValue.toInt ≤ n && n ≤ Int64.maxValue.toInt

namespace Value

def ofNumeral (x : Numeral) : Value :=
  match x.toInt? with
  | some n => if isStorable n then integer n else real x
  | none => real x

def ofNumberText (t : NumberText) : Value :=
  match t.toInt?.filter isStorable with
  | some n => integer n
  | none => real (.ofText t)

/-- A text that spells a number, as that number. -/
def toNumber : Value → Value
  | text s =>
    match (NumberText.read? s).map ofNumberText with
    | some (real x) => ofNumeral x
    | some v => v
    | none => text s
  | v => v

/-- The text of a value that is not nothing. -/
def toText : Value → Value
  | integer n => text (toString n)
  | real x => text x.text
  | v => v

/-- What a cell of an affinity stores of a value. -/
def store (a : Affinity) (v : Value) : Value :=
  match a with
  | .none => v
  | .integer => v.toNumber
  | .text => v.toText

/-- The order of two values, unless one of them is nothing. -/
def compare? : Value → Value → Option Ordering
  | null, _ => none
  | _, null => none
  | text s, text t => some (Ord.compare s t)
  | text _, _ => some .gt
  | _, text _ => some .lt
  | integer m, integer n => some (Ord.compare m n)
  | integer m, real y => some (y.compareInt m).swap
  | real x, integer n => some (x.compareInt n)
  | real x, real y => some (x.compare y)

end Value

/-- The two sides of a comparison, each made alike to the other where only one has an affinity:
a numeric side makes the other a number, a text side makes the other a text. -/
def alike (l : Value × Affinity) (r : Value × Affinity) : Value × Value :=
  match l.2, r.2 with
  | .integer, .integer => (l.1, r.1)
  | .integer, _ => (l.1, r.1.toNumber)
  | _, .integer => (l.1.toNumber, r.1)
  | .text, .none => (l.1, r.1.toText)
  | .none, .text => (l.1.toText, r.1)
  | _, _ => (l.1, r.1)

def signHolds (s : Sql.Sign) (o : Ordering) : Bool :=
  match s with
  | .equal => o == .eq
  | .notEqual => o != .eq
  | .less => o == .lt
  | .atMost => o != .gt
  | .greater => o == .gt
  | .atLeast => o != .lt

/-- Compares two values with their affinities. -/
def compareBy (s : Sql.Sign) (l r : Value × Affinity) : Sql.Truth :=
  let (a, b) := alike l r
  match a.compare? b with
  | none => .unknown
  | some o => .ofBool (signHolds s o)

/-- Turns the answers for the rest of a pattern into those for the pattern with one more character
in front. There is an answer for every suffix of the text, the whole text first. -/
def extendRow (cs : List Char) (p : Char) (row : List Bool) : List Bool :=
  if p = '%' then row.foldr (fun b later => (b || later.headD false) :: later) []
  else
    List.zipWith (fun c b => (p = '_' || p.toLower = c.toLower) && b) cs (row.drop 1) ++ [false]

/-- Whether a text matches a pattern, in which a percent sign stands for any characters and an
underscore for one. The case of ASCII letters does not matter. -/
def matchesPattern (pattern cs : List Char) : Bool :=
  (pattern.foldr (extendRow cs) (cs.map (fun _ => false) ++ [true])).headD false

example : matchesPattern "f_x%".toList "Fix sink".toList = true := by decide +kernel

example : matchesPattern "%%f_x".toList "Fix sink".toList = false := by decide +kernel

/-- The most bytes that a pattern may have. -/
def patternMax : Nat := 50000

/-- Matching looks at a text up to its first null character. -/
def upToNull (s : String) : List Char := s.toList.takeWhile fun c => c.toNat ≠ 0

/-- Whether the text of a value matches the text of a pattern, or `none` if the pattern is too
long. -/
def like? (v pattern : Value) : Option Sql.Truth :=
  match v.toText, pattern.toText with
  | .text s, .text p =>
    if patternMax < p.utf8ByteSize then none
    else some (.ofBool (matchesPattern (upToNull p) (upToNull s)))
  | _, .text p => if patternMax < p.utf8ByteSize then none else some .unknown
  | _, _ => some .unknown

/-- Whether a value is among the alternatives. -/
def among (l : Value × Affinity) (alternatives : List Value) : Sql.Truth :=
  alternatives.foldl (fun t v => t.or (compareBy .equal l (v, .none))) .no

end SearchFilter.Table
