import Mathlib.Data.List.DropRight
import SearchFilter.Json.Skip
import SearchFilter.Proofs.Json.Extent

/-!
# Parts that are skipped

Strings, names, numbers and what else is no container are skipped by readers of their own, which
allow more than those that read them. Main statements: what is read is skipped to the same place,
and what is left behind a part that is skipped is shorter.
-/

namespace SearchFilter.Json

theorem skipBlank_skipBlank (cs : List Char) : skipBlank (skipBlank cs) = skipBlank cs :=
  List.dropWhile_idempotent isBlank cs

/-! ### What is read is skipped -/

theorem skipString_part {part : List Char} (h : IsStringPart part) (cs : List Char) :
    skipString (part ++ cs) = skipString cs := by
  cases h with
  | plain hquote hescape hc =>
    rw [List.singleton_append, skipString, if_neg (Nat.not_lt.mpr hc)]
    · exact hquote
    · exact fun _ _ _ _ _ he => absurd he hescape
    · exact fun _ he => absurd he hescape
    · exact fun he => absurd he hescape
    · exact fun _ _ he => absurd he hescape
  | @short c e he =>
    have hu : c ≠ 'u' := by
      rintro rfl
      cases he
    rw [List.cons_append, List.singleton_append, skipString, he]
    · exact fun _ _ _ _ _ h => absurd h hu
    · exact hu
  | unit hn =>
    simp only [List.cons_append, List.nil_append]
    rw [skipString, hn]

theorem skipString_of_isStringText {cs rest : List Char} {n : Nat} (h : IsStringText cs rest n) :
    skipString cs = .ok rest := by
  obtain ⟨parts, rfl, -, hp⟩ := h
  induction parts with
  | nil => rfl
  | cons part parts ih =>
    rw [List.forall_mem_cons] at hp
    rw [List.flatten_cons, List.append_assoc, skipString_part hp.1, ih hp.2]

theorem skipString_of_readString {cs rest : List Char} {s : String}
    (h : readString cs = .ok (s, rest)) : skipString cs = .ok rest :=
  skipString_of_isStringText (isStringText_of_readString h)

theorem readName_eq_ok_iff {cs rest : List Char} {name : String} :
    readName cs = .ok (name, rest) ↔ ∃ text behind, cs = '"' :: text ∧
      readString text = .ok (name, behind) ∧ skipBlank behind = ':' :: rest := by
  constructor
  · intro h
    unfold readName at h
    split at h
    · obtain ⟨⟨s, behind⟩, hs, h⟩ := bind_eq_ok_iff.mp h
      dsimp only at h
      split at h <;> cases h
      exact ⟨_, behind, rfl, hs, ‹_›⟩
    · cases h
  · rintro ⟨text, behind, rfl, hs, hc⟩
    refine bind_eq_ok_iff.mpr ⟨_, hs, ?_⟩
    dsimp only
    rw [hc]
    rfl

theorem skipName_of_readName {cs rest : List Char} {name : String}
    (h : readName cs = .ok (name, rest)) : skipName cs = .ok rest := by
  obtain ⟨text, behind, rfl, hs, hc⟩ := readName_eq_ok_iff.mp h
  refine bind_eq_ok_iff.mpr ⟨_, skipString_of_readString hs, ?_⟩
  rw [hc]
  rfl

theorem dropDigits_cons {c : Char} (hc : c.isDigit = true) (cs : List Char) :
    dropDigits (c :: cs) = dropDigits cs := by
  rw [dropDigits, List.dropWhile_cons_of_pos hc, ← dropDigits]

theorem skipNumber_of_readWhole {cs rest : List Char} {ds : List Nat}
    (h : readWhole cs = .ok (ds, rest)) : skipNumber cs = skipFraction rest := by
  unfold readWhole at h
  split at h
  · cases h
  · rename_i c behind
    by_cases hz : c = '0'
    · subst hz
      rw [if_pos rfl] at h
      split at h
      · rename_i d more
        split at h
        · cases h
        · rename_i hd
          cases h
          rw [skipNumber, if_pos rfl]
          exact if_neg hd
      · cases h
        rfl
    · rw [if_neg hz] at h
      split at h
      · rename_i hd
        cases h
        rw [skipNumber.eq_def]
        simp only [hz, if_false, hd, if_true, dropDigits_cons hd]
      · cases h

theorem skipFraction_of_readFraction {cs rest : List Char} {ds : Option (List Nat)}
    (h : readFraction cs = .ok (ds, rest)) : skipFraction cs = skipExponent rest := by
  by_cases hdot : cs.head? = some '.'
  · obtain ⟨cs, rfl⟩ := List.head?_eq_some_iff.mp hdot
    obtain ⟨hne, -, rfl⟩ := readFraction_dot_iff.mp h
    rw [skipFraction, if_neg (by simpa using hne)]
  · rw [readFraction_other hdot] at h
    cases h
    unfold skipFraction
    split
    · exact absurd rfl hdot
    · rfl

theorem skipExponentDigits_of_readExponentDigits {cs rest : List Char} {isNegative : Bool}
    {e : Option (Bool × List Nat)} (h : readExponentDigits isNegative cs = .ok (e, rest)) :
    skipExponentDigits cs = .ok rest := by
  cases cs with
  | nil => cases h
  | cons c cs =>
    rw [readExponentDigits] at h
    split at h
    · rename_i hd
      cases h
      rw [skipExponentDigits, if_pos hd, dropDigits_cons hd]
    · cases h

theorem skipExponent_of_readExponent {cs rest : List Char} {e : Option (Bool × List Nat)}
    (h : readExponent cs = .ok (e, rest)) : skipExponent cs = .ok rest := by
  cases cs with
  | nil =>
    cases h
    rfl
  | cons c cs =>
    unfold readExponent at h
    by_cases hc : (decide (c = 'e') || decide (c = 'E')) = true
    · simp only [hc, if_true] at h
      split at h
      · simpa only [skipExponent, hc, if_true] using skipExponentDigits_of_readExponentDigits h
      · simpa only [skipExponent, hc, if_true] using skipExponentDigits_of_readExponentDigits h
      · unfold skipExponent
        simpa only [hc, if_true] using skipExponentDigits_of_readExponentDigits h
    · simp only [hc, Bool.false_eq_true, if_false] at h
      cases h
      simp only [skipExponent, hc, Bool.false_eq_true, if_false]

theorem skipNumber_of_readNumber {cs rest : List Char} {isNegative : Bool} {n : Number}
    (h : readNumber isNegative cs = .ok (n, rest)) : skipNumber cs = .ok rest := by
  obtain ⟨whole, cs₁, fraction, cs₂, exponent, hw, hf, he, -⟩ := readNumber_eq_ok_iff.mp h
  rw [skipNumber_of_readWhole hw, skipFraction_of_readFraction hf,
    skipExponent_of_readExponent he]

theorem skipScalar_of_readScalar {cs rest : List Char} {v : Json}
    (h : readScalar cs = .ok (v, rest)) : skipScalar cs = .ok rest := by
  cases cs with
  | nil => cases h
  | cons c cs =>
    rw [readScalar] at h
    rw [skipScalar]
    split_ifs at h ⊢
    · obtain ⟨r, hr, he⟩ := map_eq_ok_iff.mp h
      cases he
      exact hr
    · obtain ⟨r, hr, he⟩ := map_eq_ok_iff.mp h
      cases he
      exact hr
    · obtain ⟨r, hr, he⟩ := map_eq_ok_iff.mp h
      cases he
      exact hr
    · obtain ⟨⟨s, r⟩, hr, he⟩ := map_eq_ok_iff.mp h
      cases he
      exact skipString_of_readString hr
    · obtain ⟨⟨n, r⟩, hr, he⟩ := map_eq_ok_iff.mp h
      cases he
      exact skipNumber_of_readNumber hr
    · obtain ⟨⟨n, r⟩, hr, he⟩ := map_eq_ok_iff.mp h
      cases he
      exact skipNumber_of_readNumber hr
    · cases h

/-! ### What is left is shorter -/

theorem length_dropDigits_le (cs : List Char) : (dropDigits cs).length ≤ cs.length :=
  (List.dropWhile_sublist _).length_le

theorem length_skipString_lt {cs rest : List Char} (h : skipString cs = .ok rest) :
    rest.length < cs.length := by
  fun_induction skipString cs with
  | case1 | case6 | case8 | case9 => cases h
  | case2 =>
    cases h
    exact Nat.lt_succ_self _
  | case3 | case5 => exact absurd h badUnit_ne_ok
  | case4 | case7 | case10 =>
    rename_i ih
    have := ih h
    simp only [List.length_cons]
    omega

theorem length_skipName_lt {cs rest : List Char} (h : skipName cs = .ok rest) :
    rest.length < cs.length := by
  unfold skipName at h
  split at h
  · cases h
  · rename_i behind
    obtain ⟨r, hr, h⟩ := bind_eq_ok_iff.mp h
    have hlt := length_skipString_lt hr
    split at h <;> cases h
    have := length_lt_of_skipBlank_eq ‹_›
    rw [List.length_cons]
    omega
  · cases h

theorem length_skipExponentDigits_le {cs rest : List Char}
    (h : skipExponentDigits cs = .ok rest) : rest.length ≤ cs.length := by
  cases cs with
  | nil => cases h
  | cons c cs =>
    rw [skipExponentDigits] at h
    split at h <;> cases h
    exact Nat.le_succ_of_le (length_dropDigits_le cs)

theorem length_skipExponent_le {cs rest : List Char} (h : skipExponent cs = .ok rest) :
    rest.length ≤ cs.length := by
  unfold skipExponent at h
  split at h
  · cases h
    exact Nat.le_refl _
  · rename_i c cs
    split at h
    · split at h <;>
        exact Nat.le_trans (length_skipExponentDigits_le h) (by simp only [List.length_cons]; omega)
    · cases h
      exact Nat.le_refl _

theorem length_skipFraction_le {cs rest : List Char} (h : skipFraction cs = .ok rest) :
    rest.length ≤ cs.length := by
  unfold skipFraction at h
  split at h
  · rename_i digits
    split at h
    · cases h
    · have := length_skipExponent_le h
      have := length_dropDigits_le digits
      rw [List.length_cons]
      omega
  · exact length_skipExponent_le h

theorem length_skipNumber_lt {cs rest : List Char} (h : skipNumber cs = .ok rest) :
    rest.length < cs.length := by
  cases cs with
  | nil => cases h
  | cons c cs =>
    rw [List.length_cons, Nat.lt_succ_iff]
    rw [skipNumber.eq_def] at h
    dsimp only at h
    split at h
    · split at h
      · split at h
        · cases h
        · exact length_skipFraction_le h
      · cases h
        exact Nat.le_refl _
    · split at h
      · exact (length_skipFraction_le h).trans (length_dropDigits_le cs)
      · cases h

theorem length_skipScalar_lt {cs rest : List Char} (h : skipScalar cs = .ok rest) :
    rest.length < cs.length := by
  cases cs with
  | nil => cases h
  | cons c cs =>
    rw [skipScalar] at h
    split_ifs at h
    · exact Nat.lt_succ_of_le (length_readLetters_le h)
    · exact Nat.lt_succ_of_le (length_readLetters_le h)
    · exact Nat.lt_succ_of_le (length_readLetters_le h)
    · exact Nat.lt_succ_of_lt (length_skipString_lt h)
    · exact Nat.lt_succ_of_lt (length_skipNumber_lt h)
    · exact length_skipNumber_lt h
    · cases h

end SearchFilter.Json
