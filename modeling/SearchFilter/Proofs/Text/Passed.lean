import SearchFilter.Proofs.Text.Words

/-!
# The words of a text

A text is gone through from left to right. Outside of words the first ASCII letter or underscore
starts one, which goes on as far as it can; a digit starts none. Main statement: a word that stands
where none is at hand is the next word of the text.
-/

namespace SearchFilter.Text

/-- The words that are finished, and the letters of the one at hand. -/
structure Scan where
  finished : List String
  current : List Char

namespace Scan

/-- The words with the one at hand. -/
def words (s : Scan) : List String :=
  if s.current = [] then s.finished else s.finished ++ [String.ofList s.current]

def step (s : Scan) (c : Char) : Scan :=
  if startsWord c = true ∨ s.current ≠ [] ∧ continuesWord c = true then
    { s with current := s.current ++ [c] }
  else ⟨s.words, []⟩

end Scan

def scan (cs : List Char) : Scan := cs.foldl Scan.step ⟨[], []⟩

/-- The words of a text from left to right. -/
def words (cs : List Char) : List String := (scan cs).words

theorem Scan.foldl_step_of_continues {s : Scan} {more : List Char} (hs : s.current ≠ [])
    (hm : ∀ c ∈ more, continuesWord c = true) :
    more.foldl step s = { s with current := s.current ++ more } := by
  induction more generalizing s with
  | nil => simp
  | cons c more ih =>
    rw [List.forall_mem_cons] at hm
    have hc : step s c = { s with current := s.current ++ [c] } := if_pos (.inr ⟨hs, hm.1⟩)
    have hne : s.current ++ [c] ≠ [] := by simp
    rw [List.foldl_cons, hc, ih hne hm.2]
    simp

theorem scan_append (a b : List Char) : scan (a ++ b) = b.foldl Scan.step (scan a) :=
  List.foldl_append

theorem scan_append_word {a : List Char} {w : String} (hw : IsWord w) :
    scan (a ++ w.toList) = { scan a with current := (scan a).current ++ w.toList } := by
  obtain ⟨c, more, hs, hc, hm⟩ := hw
  have hstep : (scan a).step c = { scan a with current := (scan a).current ++ [c] } :=
    if_pos (.inl hc)
  have hne : (scan a).current ++ [c] ≠ [] := by simp
  rw [scan_append, hs, List.foldl_cons, hstep, Scan.foldl_step_of_continues hne hm]
  simp

/-- A character that neither starts a word nor goes on with one ends the word at hand. -/
theorem scan_append_other {a : List Char} {c : Char} (hc : startsWord c = false)
    (ha : (scan a).current ≠ [] → continuesWord c = false) :
    scan (a ++ [c]) = ⟨words a, []⟩ := by
  rw [scan_append, List.foldl_cons, List.foldl_nil]
  refine if_neg ?_
  rintro (h | ⟨hne, h⟩)
  · rw [hc] at h
    cases h
  · rw [ha hne] at h
    cases h

theorem words_append_word {a : List Char} {w : String} (hw : IsWord w)
    (ha : (scan a).current = []) : words (a ++ w.toList) = words a ++ [w] := by
  have hne : w.toList ≠ [] := by
    obtain ⟨c, more, hs, -⟩ := hw
    rw [hs]
    exact List.cons_ne_nil _ _
  simp [words, Scan.words, scan_append_word hw, ha, hne]

theorem words_append_other {a : List Char} {c : Char} (hc : startsWord c = false)
    (ha : (scan a).current ≠ [] → continuesWord c = false) : words (a ++ [c]) = words a := by
  rw [words, scan_append_other hc ha]
  simp [Scan.words]

example : words "AND x1 2_b, é9c".toList = ["AND", "x1", "_b", "c"] := by decide

end SearchFilter.Text
