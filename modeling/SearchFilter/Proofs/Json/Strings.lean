import SearchFilter.Json.Token

/-!
# How strings are written

Behind its opening quote a string is written part by part up to its closing quote: plain characters,
escapes with a letter, escapes with four digits. Main statement: a text that is read as a string is
made up of such parts, and the string has no more characters than parts.
-/

namespace SearchFilter.Json

/-- The parts of a string in a text. A pair of surrogates is two parts. -/
inductive IsStringPart : List Char → Prop
  | plain {c : Char} (notQuote : c ≠ '"') (notEscape : c ≠ '\\') (printable : 0x20 ≤ c.toNat) :
      IsStringPart [c]
  | short {c e : Char} (letter : shortEscape? c = some e) : IsStringPart ['\\', c]
  | unit {a b c d : Char} {n : Nat} (digits : unit? a b c d = some n) :
      IsStringPart ['\\', 'u', a, b, c, d]

theorem IsStringPart.length_pos {part : List Char} (h : IsStringPart part) : 0 < part.length := by
  cases h <;> exact Nat.succ_pos _

theorem badUnit_ne_ok {α : Type} {cs : List Char} {a : α} : badUnit cs ≠ .ok a := by
  unfold badUnit
  split
  · simp
  · simp [faultBefore]

/-- The text is made up of parts and the closing quote, and at most so many characters of the string
come from the parts. -/
def IsStringText (cs rest : List Char) (characters : Nat) : Prop :=
  ∃ parts : List (List Char), cs = parts.flatten ++ '"' :: rest ∧ characters ≤ parts.length ∧
    ∀ part ∈ parts, IsStringPart part

theorem IsStringText.cons {part cs rest : List Char} {n : Nat} (h : IsStringText cs rest n)
    (hp : IsStringPart part) : IsStringText (part ++ cs) rest (n + 1) := by
  obtain ⟨parts, rfl, hn, hps⟩ := h
  refine ⟨part :: parts, ?_, Nat.succ_le_succ hn, List.forall_mem_cons.mpr ⟨hp, hps⟩⟩
  rw [List.flatten_cons, List.append_assoc]

theorem IsStringText.mono {cs rest : List Char} {m n : Nat} (h : IsStringText cs rest n)
    (hm : m ≤ n) : IsStringText cs rest m := by
  obtain ⟨parts, hc, hn, hps⟩ := h
  exact ⟨parts, hc, Nat.le_trans hm hn, hps⟩

theorem isStringText_of_readStringFrom {read cs rest : List Char} {s : String}
    (h : readStringFrom read cs = .ok (s, rest)) :
    ∃ n, s.length = read.length + n ∧ IsStringText cs rest n := by
  fun_induction readStringFrom read cs with
  | case2 read rest =>
    cases h
    exact ⟨0, by simp [← String.length_toList], [], rfl, Nat.le_refl 0, by simp⟩
  | case6 read a b c d n hn _ _ e f g i rest m hm _ ih =>
    obtain ⟨k, hs, ht⟩ := ih h
    have hpair := (ht.cons (.unit hm)).cons (.unit hn)
    exact ⟨k + 1, by rw [hs, List.length_cons]; omega, hpair.mono (Nat.le_succ _)⟩
  | case13 read a b c d rest n hn _ _ ih =>
    obtain ⟨k, hs, ht⟩ := ih h
    exact ⟨k + 1, by rw [hs, List.length_cons]; omega, ht.cons (.unit hn)⟩
  | case16 read c rest _ _ e he ih =>
    obtain ⟨k, hs, ht⟩ := ih h
    exact ⟨k + 1, by rw [hs, List.length_cons]; omega, ht.cons (.short he)⟩
  | case19 read c rest hquote _ _ hend hescape hc ih =>
    obtain ⟨k, hs, ht⟩ := ih h
    have hne : c ≠ '\\' := by
      rintro rfl
      cases rest with
      | nil => exact hend rfl rfl
      | cons d rest => exact hescape d rest rfl rfl
    exact ⟨k + 1, by rw [hs, List.length_cons]; omega,
      ht.cons (.plain hquote hne (Nat.not_lt.mp hc))⟩
  | case3 | case5 | case8 | case14 => exact absurd h badUnit_ne_ok
  | case1 | case4 | case7 | case9 | case10 | case11 | case12 | case15 | case17 | case18 => cases h

/-- A text that is read as a string is a string's text. -/
theorem isStringText_of_readString {cs rest : List Char} {s : String}
    (h : readString cs = .ok (s, rest)) : IsStringText cs rest s.length := by
  obtain ⟨n, hs, ht⟩ := isStringText_of_readStringFrom h
  rw [hs, List.length_nil, Nat.zero_add]
  exact ht

end SearchFilter.Json
