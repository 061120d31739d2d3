import SearchFilter.Text.Digit
import SearchFilter.Text.Split
import SearchFilter.Text.Utf8

/-!
# Percent signs and forms

A percent sign with two hexadecimal digits behind it stands for a byte. A form is a list of names
and values: pairs are parted by ampersands, a pair by its first equals sign, and a plus stands for
a space.
-/

namespace SearchFilter.Text

/-- The bytes that a percent-encoded text stands for. A percent sign without two digits stands for
itself. -/
def percentDecode : List Char → List Nat
  | [] => []
  | '%' :: a :: b :: rest =>
    match hexDigit? a, hexDigit? b with
    | some x, some y => (16 * x + y) :: percentDecode rest
    | _, _ => '%'.toNat :: percentDecode (a :: b :: rest)
  | c :: rest => bytesOf (String.singleton c) ++ percentDecode rest

/-- A name or a value of a form. -/
def formText (cs : List Char) : String :=
  String.ofList
    (readTextLeniently (percentDecode (cs.map fun c => if c = '+' then ' ' else c)))

/-- The names and values of a form. -/
def formPairs (cs : List Char) : List (String × String) :=
  ((split '&' cs).filter (· ≠ [])).map fun pair =>
    (formText (cutAt '=' pair).1, formText ((cutAt '=' pair).2.getD []))

example : formPairs "a=b%20c&&d+e".toList = [("a", "b c"), ("d e", "")] := by cbv

end SearchFilter.Text
