/-!
# Blank characters

The white space of Unicode and the removal of it from both ends of a text. The blanks between the
tokens of a JSON text are a smaller set and live with the JSON reader.
-/

namespace SearchFilter.Text

/-- A character is blank when Unicode gives it the property `White_Space`. -/
def isBlank (c : Char) : Bool :=
  let n := c.toNat
  (9 ≤ n && n ≤ 13) || n = 0x20 || n = 0x85 || n = 0xA0 || n = 0x1680 ||
    (0x2000 ≤ n && n ≤ 0x200A) || n = 0x2028 || n = 0x2029 || n = 0x202F || n = 0x205F ||
    n = 0x3000

/-- The characters without the blank ones at either end. -/
def trimList (cs : List Char) : List Char :=
  ((cs.dropWhile isBlank).reverse.dropWhile isBlank).reverse

/-- The text without blank characters at either end. -/
def trim (s : String) : String := String.ofList (trimList s.toList)

@[simp] theorem toList_trim (s : String) : (trim s).toList = trimList s.toList := by
  simp [trim]

example : trim "\t a b\u2003\n" = "a b" := by decide +kernel

end SearchFilter.Text
