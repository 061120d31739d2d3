import SearchFilter.Text.Unprintable

/-!
# Quoted texts in messages

A text between double quotes in which quotes, backslashes and everything that has no shape of its
own are spelled out. The three common control characters and NUL have short forms, the others their
number in hexadecimal.
-/

namespace SearchFilter.Text

def spell (c : Char) : List Char :=
  if c = '"' then ['\\', '"']
  else if c = '\\' then ['\\', '\\']
  else if c = '\n' then ['\\', 'n']
  else if c = '\r' then ['\\', 'r']
  else if c = '\t' then ['\\', 't']
  else if c.toNat = 0 then ['\\', '0']
  else if isUnprintable c then
    ['\\', 'u', '\x7b'] ++ Nat.toDigits 16 c.toNat ++ ['\x7d']
  else [c]

/-- The text between quotes. -/
def quote (s : String) : String := String.ofList ('"' :: s.toList.flatMap spell ++ ['"'])

example : quote "a\"b\n" = "\"a\\\"b\\n\"" := by decide +kernel

end SearchFilter.Text
