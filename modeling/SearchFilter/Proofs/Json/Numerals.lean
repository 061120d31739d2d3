import Mathlib.Data.List.TakeWhile
import SearchFilter.Proofs.Json.Decoded

/-!
# The literals of numbers

A number is read part by part: the digits before the point, those behind it, the exponent. Each part
ends where a character cannot go on with it, and none of them goes on with a character that another
one starts with. Main statement: what is taken of a text for a number has the same value when it is
read on its own.
-/

namespace SearchFilter.Json

/-- A text that does not go on with digits. -/
def EndsDigits (cs : List Char) : Prop := ∀ c ∈ cs.head?, c.isDigit = false

theorem endsDigits_nil : EndsDigits [] := by
  intro c hc
  cases hc

theorem endsDigits_cons {c : Char} {cs : List Char} (h : c.isDigit = false) :
    EndsDigits (c :: cs) := by
  intro d hd
  cases hd
  exact h

/-- The values of digits. -/
def digitValues (cs : List Char) : List Nat := cs.map fun c => c.toNat - 48

theorem length_digitValues (cs : List Char) : (digitValues cs).length = cs.length :=
  List.length_map _

theorem digitValues_eq_nil {cs : List Char} : digitValues cs = [] ↔ cs = [] := List.map_eq_nil_iff

section Digits

variable {part tail : List Char} (hp : ∀ c ∈ part, c.isDigit) (ht : EndsDigits tail)

include ht in
theorem takeWhile_eq_nil_of_endsDigits : tail.takeWhile Char.isDigit = [] := by
  cases tail with
  | nil => rfl
  | cons c tail => exact List.takeWhile_cons_of_neg (by simp [ht c rfl])

include ht in
theorem dropDigits_of_endsDigits : dropDigits tail = tail := by
  cases tail with
  | nil => rfl
  | cons c tail => exact List.dropWhile_cons_of_neg (by simp [ht c rfl])

include hp ht

theorem takeDigits_append : (part ++ tail).takeWhile Char.isDigit = part := by
  rw [List.takeWhile_append_of_pos hp, takeWhile_eq_nil_of_endsDigits ht, List.append_nil]

theorem leadingDigits_append : leadingDigits (part ++ tail) = digitValues part := by
  rw [leadingDigits, takeDigits_append hp ht, digitValues]

theorem dropDigits_append : dropDigits (part ++ tail) = tail := by
  rw [dropDigits, List.dropWhile_append_of_pos hp]
  exact dropDigits_of_endsDigits ht

end Digits

/-- A text starts with as many digits in one way only. -/
theorem digits_append_inj {part part' tail tail' : List Char} (hp : ∀ c ∈ part, c.isDigit)
    (hp' : ∀ c ∈ part', c.isDigit) (ht : EndsDigits tail) (ht' : EndsDigits tail')
    (h : part ++ tail = part' ++ tail') : part = part' ∧ tail = tail' := by
  have hparts := congrArg (List.takeWhile Char.isDigit) h
  have htails := congrArg dropDigits h
  rw [takeDigits_append hp ht, takeDigits_append hp' ht'] at hparts
  rw [dropDigits_append hp ht, dropDigits_append hp' ht'] at htails
  exact ⟨hparts, htails⟩

theorem exists_digits (cs : List Char) : ∃ part rest, cs = part ++ rest ∧
    (∀ c ∈ part, c.isDigit) ∧ EndsDigits rest := by
  refine ⟨cs.takeWhile Char.isDigit, dropDigits cs, List.takeWhile_append_dropWhile.symm,
    fun _ => List.mem_takeWhile_imp, ?_⟩
  intro c hc
  have h := List.head?_dropWhile_not Char.isDigit cs
  rw [dropDigits] at hc
  rw [Option.mem_def.mp hc] at h
  simpa using h

/-- The digits of a whole number: a zero or digits that do not start with one. -/
def IsWhole (cs : List Char) : Prop :=
  cs = ['0'] ∨ (∃ c ∈ cs.head?, c ≠ '0') ∧ ∀ c ∈ cs, c.isDigit

theorem IsWhole.isDigit {cs : List Char} (h : IsWhole cs) : ∀ c ∈ cs, c.isDigit := by
  rcases h with rfl | ⟨-, h⟩
  · exact List.forall_mem_singleton.mpr rfl
  · exact h

theorem exists_of_readWhole {cs rest : List Char} {ds : List Nat}
    (h : readWhole cs = .ok (ds, rest)) : ∃ whole, cs = whole ++ rest ∧ IsWhole whole ∧
      EndsDigits rest ∧ ds = digitValues whole := by
  cases cs with
  | nil => cases h
  | cons c cs =>
    by_cases hz : c = '0'
    · subst hz
      cases cs with
      | nil =>
        cases h
        exact ⟨['0'], rfl, .inl rfl, endsDigits_nil, rfl⟩
      | cons d cs =>
        rw [readWhole, if_pos rfl] at h
        split_ifs at h with hd
        · cases h
        · cases h
          exact ⟨['0'], rfl, .inl rfl, endsDigits_cons (by simpa using hd), rfl⟩
    · obtain ⟨part, tail, rfl, hp, ht⟩ := exists_digits cs
      by_cases hd : c.isDigit
      · have hp : ∀ d ∈ c :: part, d.isDigit := List.forall_mem_cons.mpr ⟨hd, hp⟩
        have hl := leadingDigits_append hp ht
        have hr := dropDigits_append hp ht
        rw [List.cons_append] at hl hr
        rw [readWhole.eq_def] at h
        simp only [hz, if_false, hd, if_true, hl, hr] at h
        cases h
        exact ⟨c :: part, rfl, .inr ⟨⟨c, rfl, hz⟩, hp⟩, ht, rfl⟩
      · rw [readWhole.eq_def] at h
        simp [hz, hd, faultAt] at h

theorem readWhole_append {whole rest : List Char} (hw : IsWhole whole) (hr : EndsDigits rest) :
    readWhole (whole ++ rest) = .ok (digitValues whole, rest) := by
  rcases hw with rfl | ⟨⟨c, hc, hz⟩, hw⟩
  · cases rest with
    | nil => rfl
    | cons d rest => simp [readWhole, hr d rfl, digitValues]
  · obtain ⟨part, rfl⟩ := List.head?_eq_some_iff.mp hc
    have hl := leadingDigits_append hw hr
    have hd := dropDigits_append hw hr
    rw [List.cons_append] at hl hd ⊢
    rw [readWhole.eq_def]
    simp only [hz, if_false, hw c List.mem_cons_self, if_true, hl, hd]

theorem readWhole_eq_ok_iff {cs rest : List Char} {ds : List Nat} :
    readWhole cs = .ok (ds, rest) ↔ ∃ whole, cs = whole ++ rest ∧ IsWhole whole ∧
      EndsDigits rest ∧ ds = digitValues whole := by
  refine ⟨exists_of_readWhole, ?_⟩
  rintro ⟨whole, rfl, hw, hr, rfl⟩
  exact readWhole_append hw hr

theorem readFraction_other {cs : List Char} (h : cs.head? ≠ some '.') :
    readFraction cs = .ok (none, cs) := by
  unfold readFraction
  split
  · exact absurd rfl h
  · rfl

theorem readFraction_dot_iff {cs rest : List Char} {ds : Option (List Nat)} :
    readFraction ('.' :: cs) = .ok (ds, rest) ↔
      leadingDigits cs ≠ [] ∧ ds = some (leadingDigits cs) ∧ rest = dropDigits cs := by
  unfold readFraction
  split
  · rename_i he
    cases he
    split
    · simp [faultBefore, *]
    · simp [faultAt, *]
    · rename_i hd _
      constructor
      · intro h
        cases h
        exact ⟨hd, rfl, rfl⟩
      · rintro ⟨-, rfl, rfl⟩
        rfl
  · rename_i hne
    exact (hne cs rfl).elim

theorem readFraction_eq_ok_iff {cs rest : List Char} {ds : Option (List Nat)} :
    readFraction cs = .ok (ds, rest) ↔ (cs.head? ≠ some '.' ∧ ds = none ∧ rest = cs) ∨
      ∃ part, cs = '.' :: part ++ rest ∧ part ≠ [] ∧ (∀ c ∈ part, c.isDigit) ∧
        EndsDigits rest ∧ ds = some (digitValues part) := by
  by_cases hdot : cs.head? = some '.'
  · obtain ⟨cs, rfl⟩ := List.head?_eq_some_iff.mp hdot
    obtain ⟨part, tail, rfl, hp, ht⟩ := exists_digits cs
    have hl := leadingDigits_append hp ht
    rw [readFraction_dot_iff, hl, dropDigits_append hp ht, Ne, digitValues_eq_nil]
    constructor
    · rintro ⟨hne, rfl, rfl⟩
      exact .inr ⟨part, rfl, hne, hp, ht, rfl⟩
    · rintro (⟨h, -⟩ | ⟨part', h, hne, hp', ht', rfl⟩)
      · exact absurd hdot h
      · obtain ⟨rfl, rfl⟩ := digits_append_inj hp hp' ht ht' (List.cons.inj h).2
        exact ⟨hne, rfl, rfl⟩
  · rw [readFraction_other hdot]
    constructor
    · intro h
      cases h
      exact .inl ⟨hdot, rfl, rfl⟩
    · rintro (⟨-, rfl, rfl⟩ | ⟨part, rfl, -⟩)
      · rfl
      · exact absurd rfl hdot

theorem exists_of_readExponentDigits {cs rest : List Char} {isNegative : Bool}
    {e : Option (Bool × List Nat)} (h : readExponentDigits isNegative cs = .ok (e, rest)) :
    ∃ part, cs = part ++ rest ∧ (∀ c ∈ part.head?, c.isDigit) ∧
      readExponentDigits isNegative part = .ok (e, []) := by
  cases cs with
  | nil => cases h
  | cons c cs =>
    obtain ⟨part, tail, rfl, hp, ht⟩ := exists_digits cs
    rw [readExponentDigits] at h
    split_ifs at h with hd
    · have hp : ∀ d ∈ c :: part, d.isDigit := List.forall_mem_cons.mpr ⟨hd, hp⟩
      have hl := leadingDigits_append hp ht
      have hr := dropDigits_append hp ht
      have hl' := leadingDigits_append hp endsDigits_nil
      have hr' := dropDigits_append hp endsDigits_nil
      rw [List.cons_append] at hl hr
      rw [List.append_nil] at hl' hr'
      rw [hl, hr] at h
      cases h
      exact ⟨c :: part, rfl, by simp [hd], by rw [readExponentDigits, if_pos hd, hl', hr']⟩
    · cases h

theorem exists_of_readExponent {cs rest : List Char} {e : Option (Bool × List Nat)}
    (h : readExponent cs = .ok (e, rest)) : ∃ part, cs = part ++ rest ∧
      (∀ c ∈ part.head?, c = 'e' ∨ c = 'E') ∧ readExponent part = .ok (e, []) := by
  cases cs with
  | nil =>
    cases h
    exact ⟨[], rfl, by simp, rfl⟩
  | cons c cs =>
    unfold readExponent at h
    by_cases hc : c = 'e' ∨ c = 'E'
    · have hc' : (decide (c = 'e') || decide (c = 'E')) = true := by simpa using hc
      simp only [hc', if_true] at h
      split at h
      · obtain ⟨part, rfl, -, hr⟩ := exists_of_readExponentDigits h
        refine ⟨c :: '+' :: part, rfl, by simpa using hc, ?_⟩
        simp only [readExponent, hc', if_true, hr]
      · obtain ⟨part, rfl, -, hr⟩ := exists_of_readExponentDigits h
        refine ⟨c :: '-' :: part, rfl, by simpa using hc, ?_⟩
        simp only [readExponent, hc', if_true, hr]
      · obtain ⟨part, rfl, hd, hr⟩ := exists_of_readExponentDigits h
        refine ⟨c :: part, rfl, by simpa using hc, ?_⟩
        unfold readExponent
        simp only [hc', if_true]
        split
        · simp at hd
        · simp at hd
        · exact hr
    · have hc' : (decide (c = 'e') || decide (c = 'E')) = false := by simpa using hc
      simp only [hc'] at h
      cases h
      exact ⟨[], rfl, by simp, rfl⟩

/-- The literal with the parts that were read. -/
def literalOf (isNegative : Bool) (whole : List Nat) (fraction : Option (List Nat))
    (exponent : Option (Bool × List Nat)) : Literal :=
  { isNegative, whole, fraction := fraction.getD [], exponent
    isInteger := fraction.isNone && exponent.isNone }

theorem readNumber_eq_ok_iff {cs rest : List Char} {isNegative : Bool} {n : Number} :
    readNumber isNegative cs = .ok (n, rest) ↔ ∃ whole cs₁ fraction cs₂ exponent,
      readWhole cs = .ok (whole, cs₁) ∧ readFraction cs₁ = .ok (fraction, cs₂) ∧
        readExponent cs₂ = .ok (exponent, rest) ∧
        (literalOf isNegative whole fraction exponent).value = .ok n := by
  unfold readNumber
  simp only [bind_eq_ok_iff, Prod.exists, literalOf]
  constructor
  · rintro ⟨whole, cs₁, hw, fraction, cs₂, hf, exponent, cs₃, he, h⟩
    split at h <;> cases h
    exact ⟨whole, cs₁, fraction, cs₂, exponent, hw, hf, he, ‹_›⟩
  · rintro ⟨whole, cs₁, fraction, cs₂, exponent, hw, hf, he, h⟩
    exact ⟨whole, cs₁, hw, fraction, cs₂, hf, exponent, rest, he, by rw [h]⟩

theorem exists_of_readNumber {cs rest : List Char} {isNegative : Bool} {n : Number}
    (h : readNumber isNegative cs = .ok (n, rest)) :
    ∃ part, cs = part ++ rest ∧ readNumber isNegative part = .ok (n, []) := by
  obtain ⟨whole, cs₁, fraction, cs₂, exponent, hw, hf, he, hv⟩ := readNumber_eq_ok_iff.mp h
  obtain ⟨w, rfl, hwhole, -, rfl⟩ := readWhole_eq_ok_iff.mp hw
  obtain ⟨e, rfl, hmark, hexponent⟩ := exists_of_readExponent he
  have hmark : ∀ c ∈ e.head?, c.isDigit = false ∧ c ≠ '.' := by
    intro c hc
    rcases hmark c hc with rfl | rfl <;> decide
  have hee : EndsDigits e := fun c hc => (hmark c hc).1
  have hdot : e.head? ≠ some '.' := fun hd => (hmark '.' hd).2 rfl
  rcases readFraction_eq_ok_iff.mp hf with ⟨-, rfl, rfl⟩ | ⟨f, rfl, hne, hd, -, rfl⟩
  · refine ⟨w ++ e, by rw [List.append_assoc], readNumber_eq_ok_iff.mpr ?_⟩
    have hfraction := readFraction_eq_ok_iff.mpr (.inl ⟨hdot, rfl, rfl⟩)
    exact ⟨_, e, none, e, exponent, readWhole_eq_ok_iff.mpr ⟨w, rfl, hwhole, hee, rfl⟩, hfraction,
      hexponent, hv⟩
  · refine ⟨w ++ ('.' :: f ++ e), by simp, readNumber_eq_ok_iff.mpr ?_⟩
    have hpoint : EndsDigits ('.' :: f ++ e) := endsDigits_cons (by decide)
    have hfraction := readFraction_eq_ok_iff.mpr (.inr ⟨f, rfl, hne, hd, hee, rfl⟩)
    exact ⟨_, _, _, e, exponent, readWhole_eq_ok_iff.mpr ⟨w, rfl, hwhole, hpoint, rfl⟩, hfraction,
      hexponent, hv⟩

theorem readScalar_number_iff {cs rest : List Char} {n : Number} :
    readScalar cs = .ok (.number n, rest) ↔
      (∃ behind, cs = '-' :: behind ∧ readNumber true behind = .ok (n, rest)) ∨
        (∃ c ∈ cs.head?, c.isDigit) ∧ readNumber false cs = .ok (n, rest) := by
  cases cs with
  | nil => simp [readScalar, faultBefore]
  | cons c cs =>
    by_cases hm : c = '-'
    · subst hm
      simp [readScalar, map_eq_ok_iff]
    by_cases hd : c.isDigit
    · have hne : ∀ d : Char, d.isDigit = false → c ≠ d := by
        rintro d h rfl
        rw [h] at hd
        cases hd
      simp [readScalar, map_eq_ok_iff, hne 'n' rfl, hne 't' rfl, hne 'f' rfl, hne '"' rfl, hm, hd]
    · rw [readScalar]
      split_ifs <;> simp [map_eq_ok_iff, hm, hd, faultAt]

/-- What is taken of a text for a number has the same value on its own. -/
theorem exists_of_readScalar {cs rest : List Char} {n : Number}
    (h : readScalar cs = .ok (.number n, rest)) :
    ∃ part, cs = part ++ rest ∧ readScalar part = .ok (.number n, []) := by
  simp only [readScalar_number_iff] at h ⊢
  rcases h with ⟨behind, rfl, h⟩ | ⟨⟨c, hc, hd⟩, h⟩
  · obtain ⟨part, rfl, hp⟩ := exists_of_readNumber h
    exact ⟨'-' :: part, rfl, .inl ⟨part, rfl, hp⟩⟩
  · obtain ⟨part, rfl, hp⟩ := exists_of_readNumber h
    refine ⟨part, rfl, .inr ⟨⟨c, ?_, hd⟩, hp⟩⟩
    cases part with
    | nil => cases hp
    | cons d part => exact hc

theorem readScalar_taken {cs rest : List Char} {n : Number}
    (h : readScalar cs = .ok (.number n, rest)) :
    readScalar (cs.take (cs.length - rest.length)) = .ok (.number n, []) := by
  obtain ⟨part, rfl, hp⟩ := exists_of_readScalar h
  rw [List.length_append, Nat.add_sub_cancel, List.take_left]
  exact hp

/-- A number and the text that it was read from. -/
structure Numeral where
  literal : List Char
  value : Number
  read : readScalar literal = .ok (.number value, [])

end SearchFilter.Json
