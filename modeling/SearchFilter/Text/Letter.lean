/-!
# ASCII letters and words

Keywords and names are compared up to the case of ASCII letters, and the words of a predicate are
runs of ASCII letters, digits and underscores.
-/

namespace SearchFilter.Text

/-- The characters of a text with its ASCII capitals made small. -/
def foldCase (s : String) : List Char := s.toList.map Char.toLower

/-- Two texts agree up to the case of their ASCII letters. -/
def SameFolded (s t : String) : Prop := foldCase s = foldCase t

instance (s t : String) : Decidable (SameFolded s t) :=
  inferInstanceAs (Decidable (foldCase s = foldCase t))

/-- A word starts with an ASCII letter or an underscore. -/
def startsWord (c : Char) : Bool := c.isAlpha || c = '_'

/-- A word goes on with ASCII letters, digits and underscores. -/
def continuesWord (c : Char) : Bool := c.isAlphanum || c = '_'

theorem continuesWord_of_startsWord {c : Char} (h : startsWord c = true) :
    continuesWord c = true := by
  simp only [startsWord, continuesWord, Bool.or_eq_true, Char.isAlphanum] at *
  rcases h with h | h
  · exact .inl (.inl h)
  · exact .inr h

/-- A text is a word when it is not empty, starts as a word and goes on as one. -/
def IsWord (s : String) : Prop :=
  ∃ c rest, s.toList = c :: rest ∧ startsWord c = true ∧ ∀ d ∈ rest, continuesWord d = true

end SearchFilter.Text
