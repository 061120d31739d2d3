import SearchFilter.Filter.Operator

/-!
# Words and column names

A scanner takes a word whole when a character that is no part of a word stands behind it. A column
name is a word that no predicate uses for itself.
-/

namespace SearchFilter

namespace Text

instance (s : String) : Decidable (IsWord s) :=
  match h : s.toList with
  | [] => .isFalse fun ⟨_, _, hs, _⟩ => List.cons_ne_nil _ _ (hs.symm.trans h)
  | c :: rest =>
    if hw : startsWord c = true ∧ rest.all continuesWord = true then
      .isTrue ⟨c, rest, h, hw.1, List.all_eq_true.mp hw.2⟩
    else
      .isFalse fun ⟨d, more, hs, hd, hm⟩ => by
        rw [h] at hs
        cases hs
        exact hw ⟨hd, List.all_eq_true.mpr hm⟩

/-- Whether no word goes on into a text. -/
def EndsWord (rest : List Char) : Prop := ∀ c ∈ rest.head?, continuesWord c = false

theorem endsWord_cons {c : Char} (h : continuesWord c = false) (rest : List Char) :
    EndsWord (c :: rest) := by
  intro d hd
  rw [List.head?_cons, Option.mem_some_iff] at hd
  exact hd ▸ h

theorem endsWord_blank (rest : List Char) : EndsWord (' ' :: rest) := endsWord_cons (by decide) rest

theorem takeWhile_continuesWord {more rest : List Char}
    (hm : ∀ c ∈ more, continuesWord c = true) (he : EndsWord rest) :
    (more ++ rest).takeWhile continuesWord = more := by
  rw [List.takeWhile_append_of_pos hm]
  cases rest with
  | nil => simp
  | cons c rest => simp [he c (by simp)]

theorem dropWhile_continuesWord {more rest : List Char}
    (hm : ∀ c ∈ more, continuesWord c = true) (he : EndsWord rest) :
    (more ++ rest).dropWhile continuesWord = rest := by
  rw [List.dropWhile_append_of_pos hm]
  cases rest with
  | nil => rfl
  | cons c rest => simp [he c (by simp)]

theorem not_mem_of_isWord {s : String} (h : IsWord s) {c : Char} (hc : continuesWord c = false) :
    c ∉ s.toList := by
  obtain ⟨d, rest, hs, hd, hr⟩ := h
  intro hm
  rw [hs] at hm
  have : continuesWord c = true := by
    rcases List.mem_cons.mp hm with rfl | hm
    · exact continuesWord_of_startsWord hd
    · exact hr c hm
  rw [hc] at this
  cases this

end Text

theorem Connective.isWord_symbol (c : Connective) : Text.IsWord c.symbol := by
  cases c <;> decide

theorem Operator.isWord_symbol {op : Operator} (h : op.isOrdering = false) :
    Text.IsWord op.symbol := by
  cases op with
  | like => decide
  | oneOf => decide
  | _ => cases h

/-- A name that cannot be taken for anything else in a predicate. -/
def IsColumnName (s : String) : Prop := Text.IsWord s ∧ s ∉ ["AND", "OR", "LIKE", "IN"]

instance (s : String) : Decidable (IsColumnName s) :=
  inferInstanceAs (Decidable (_ ∧ _))

example : IsColumnName "owner_id" ∧ ¬ IsColumnName "LIKE" ∧ ¬ IsColumnName "a?" := by decide

end SearchFilter
