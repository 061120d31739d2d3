import SearchFilter.Numeric.Power

/-!
# Bytes and texts

Reading the bytes of UTF-8. A sequence is malformed up to the byte that cannot go on with it, and
incomplete where the bytes end within it. Strict reading reports the first fault; lenient reading
puts a replacement character in the place of each.
-/

namespace SearchFilter.Text

/-- The bytes of a text. -/
def bytesOf (s : String) : List Nat := s.toUTF8.toList.map UInt8.toNat

/-- How a sequence of bytes is continued: the number of bytes behind the first one, and the bounds
of the one right behind it. -/
def continuation? (first : Nat) : Option (Nat × Nat × Nat) :=
  if first < 0x80 then some (0, 0, 0)
  else if 0xC2 ≤ first ∧ first ≤ 0xDF then some (1, 0x80, 0xBF)
  else if first = 0xE0 then some (2, 0xA0, 0xBF)
  else if first = 0xED then some (2, 0x80, 0x9F)
  else if 0xE1 ≤ first ∧ first ≤ 0xEF then some (2, 0x80, 0xBF)
  else if first = 0xF0 then some (3, 0x90, 0xBF)
  else if 0xF1 ≤ first ∧ first ≤ 0xF3 then some (3, 0x80, 0xBF)
  else if first = 0xF4 then some (3, 0x80, 0x8F)
  else none

/-- What the bytes at the front of a list are. -/
inductive Front where
  | char (c : Char)
  /-- So many bytes belong to no sequence. -/
  | malformed (length : Nat)
  | incomplete
deriving DecidableEq, Repr

/-- Reads the bytes behind the first one of a sequence. So many bytes of it have been read, and so
many are still to come, the next one within bounds. -/
def readTail (value taken : Nat) : (missing low high : Nat) → List Nat → Front × List Nat
  | 0, _, _, rest => (.char (Char.ofNat value), rest)
  | _ + 1, _, _, [] => (.incomplete, [])
  | missing + 1, low, high, b :: rest =>
    if low ≤ b ∧ b ≤ high then
      readTail (value * 64 + b % 64) (taken + 1) missing 0x80 0xBF rest
    else (.malformed taken, b :: rest)

theorem length_readTail_le {value taken missing low high : Nat} {bs : List Nat} :
    (readTail value taken missing low high bs).2.length ≤ bs.length := by
  induction missing generalizing value taken low high bs with
  | zero => simp [readTail]
  | succ missing ih =>
    cases bs with
    | nil => simp [readTail]
    | cons b rest =>
      unfold readTail
      split
      · exact Nat.le_succ_of_le ih
      · simp

/-- Reads the sequence that starts with a byte. -/
def readFront (first : Nat) (rest : List Nat) : Front × List Nat :=
  match continuation? first with
  | none => (.malformed 1, rest)
  | some (missing, low, high) =>
    let bits := if missing = 0 then first else first % Numeric.twoPow (6 - missing)
    readTail bits 1 missing low high rest

theorem length_readFront_le {first : Nat} {rest : List Nat} :
    (readFront first rest).2.length ≤ rest.length := by
  unfold readFront
  split
  · simp
  · exact length_readTail_le

/-- Where bytes are no text. -/
inductive ByteFault where
  | malformed (length index : Nat)
  | incomplete (index : Nat)
deriving DecidableEq, Repr

def ByteFault.message : ByteFault → String
  | .malformed length index => s!"invalid utf-8 sequence of {length} bytes from index {index}"
  | .incomplete index => s!"incomplete utf-8 byte sequence from index {index}"

/-- The text of bytes, which are the last of so many. -/
def readText (total : Nat) : List Nat → Except ByteFault (List Char)
  | [] => .ok []
  | first :: rest =>
    match h : readFront first rest with
    | (.char c, after) => (readText total after).map (c :: ·)
    | (.malformed length, _) => .error (.malformed length (total - (rest.length + 1)))
    | (.incomplete, _) => .error (.incomplete (total - (rest.length + 1)))
termination_by bs => bs.length
decreasing_by exact Nat.lt_succ_of_le (by simpa [h] using @length_readFront_le first rest)

/-- The text of bytes. -/
def decodeBytes (bs : List Nat) : Except ByteFault String :=
  (readText bs.length bs).map String.ofList

/-- The text of bytes, with a replacement character for every fault. -/
def readTextLeniently : List Nat → List Char
  | [] => []
  | first :: rest =>
    match _h : readFront first rest with
    | (.char c, after) => c :: readTextLeniently after
    | (_, after) => '\uFFFD' :: readTextLeniently after
termination_by bs => bs.length
decreasing_by
  all_goals exact Nat.lt_succ_of_le (by simpa [_h] using @length_readFront_le first rest)

example : decodeBytes [0x61, 0xE2, 0x82, 0xAC] = .ok "a€" := by cbv

example : decodeBytes [0x61, 0xE2, 0x28] = .error (.malformed 1 1) := by cbv

example : readTextLeniently [0xF0, 0x9F, 0x61] = ['\uFFFD', 'a'] := by cbv

end SearchFilter.Text
