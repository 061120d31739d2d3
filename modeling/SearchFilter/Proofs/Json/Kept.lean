import SearchFilter.Proofs.Json.Decimals

/-!
# Literals that are written back

A number is written from its value, so its literal comes back only if the value is written in the
same way. Main statements: integers of 64 bits and short decimals without zeros at the end are
written back as they are; integers past 64 bits, `-0`, zeros at the end of a fraction, fractions
below `10 ^ -5`, and exponents with a capital letter or without a sign are not.
-/

namespace SearchFilter.Json

open Decimal (digitsOf)

/-! ### Literals without an exponent -/

section Reading

variable {isNegative : Bool} {cs whole fraction : List Char} {n : Number}

theorem readNumber_of_readScalar (hs : '-' ∉ cs)
    (h : readScalar (signText isNegative ++ cs) = .ok (.number n, [])) :
    readNumber isNegative cs = .ok (n, []) := by
  cases isNegative with
  | false =>
    rcases readScalar_number_iff.mp h with ⟨behind, hcs, -⟩ | ⟨-, h⟩
    · replace hcs : cs = '-' :: behind := hcs
      subst hcs
      exact absurd List.mem_cons_self hs
    · exact h
  | true =>
    rcases readScalar_number_iff.mp h with ⟨behind, hcs, h⟩ | ⟨⟨c, hc, hdigit⟩, -⟩
    · cases hcs
      exact h
    · cases hc
      exact absurd hdigit (by decide)

theorem value_of_integer (hd : ∀ c ∈ whole, c.isDigit)
    (h : readNumber isNegative whole = .ok (n, [])) :
    IsWhole whole ∧ (literalOf isNegative (digitValues whole) none none).value = .ok n := by
  obtain ⟨_, cs₁, fraction, cs₂, exponent, hw, hf, he, hv⟩ := readNumber_eq_ok_iff.mp h
  obtain ⟨part, hpart, hwhole, hend, rfl⟩ := readWhole_eq_ok_iff.mp hw
  obtain ⟨rfl, rfl⟩ := digits_append_inj hd hwhole.isDigit endsDigits_nil hend
    ((List.append_nil whole).trans hpart)
  cases hf
  cases he
  exact ⟨hwhole, hv⟩

theorem value_of_decimal (hd : ∀ c ∈ whole, c.isDigit) (hf : ∀ c ∈ fraction, c.isDigit)
    (h : readNumber isNegative (whole ++ '.' :: fraction) = .ok (n, [])) :
    IsWhole whole ∧ fraction ≠ [] ∧
      (literalOf isNegative (digitValues whole) (some (digitValues fraction)) none).value =
        .ok n := by
  obtain ⟨_, cs₁, _, cs₂, exponent, hw, hfraction, he, hv⟩ := readNumber_eq_ok_iff.mp h
  obtain ⟨part, hpart, hwhole, hend, rfl⟩ := readWhole_eq_ok_iff.mp hw
  have hpoint : EndsDigits ('.' :: fraction) := endsDigits_cons (by decide)
  obtain ⟨rfl, rfl⟩ := digits_append_inj hd hwhole.isDigit hpoint hend hpart
  rcases readFraction_eq_ok_iff.mp hfraction with ⟨hdot, -⟩ | ⟨ds, hds, hne, hdigits, hends, rfl⟩
  · exact absurd rfl hdot
  · obtain ⟨rfl, rfl⟩ := digits_append_inj hf hdigits endsDigits_nil hends
      ((List.append_nil fraction).trans (List.cons.inj hds).2)
    cases he
    exact ⟨hwhole, hne, hv⟩

end Reading

/-! ### Exponents -/

/-- Whether a text has no letter for an exponent. -/
def HasNoMark (cs : List Char) : Prop := ∀ c ∈ cs, c ≠ 'e' ∧ c ≠ 'E'

instance (cs : List Char) : Decidable (HasNoMark cs) :=
  List.decidableBAll (fun c => c ≠ 'e' ∧ c ≠ 'E') cs

theorem hasNoMark_digits {cs : List Char} (hd : ∀ c ∈ cs, c.isDigit) : HasNoMark cs := by
  intro c hc
  have hdigit := hd c hc
  constructor <;> rintro rfl <;> cases hdigit

theorem hasNoMark_digitsOf (n : Nat) : HasNoMark (digitsOf n) :=
  hasNoMark_digits fun _ => Nat.isDigit_of_mem_toDigits (by decide) (by decide)

theorem hasNoMark_signText (isNegative : Bool) : HasNoMark (signText isNegative) := by
  cases isNegative <;> simp [HasNoMark, signText]

theorem HasNoMark.append {cs ds : List Char} (hc : HasNoMark cs) (hd : HasNoMark ds) :
    HasNoMark (cs ++ ds) := List.forall_mem_append.mpr ⟨hc, hd⟩

theorem HasNoMark.cons {c : Char} {cs : List Char} (hc : c ≠ 'e' ∧ c ≠ 'E') (h : HasNoMark cs) :
    HasNoMark (c :: cs) := List.forall_mem_cons.mpr ⟨hc, h⟩

theorem HasNoMark.sublist {cs ds : List Char} (hd : HasNoMark ds) (h : cs.Sublist ds) :
    HasNoMark cs := fun c hc => hd c (h.subset hc)

theorem hasNoMark_zeros (k : Nat) : HasNoMark (List.replicate k '0') := by
  intro c hc
  rw [List.eq_of_mem_replicate hc]
  decide

/-- Whether a text has no exponent, or one with a small letter and a sign. -/
def IsSigned (cs : List Char) : Prop :=
  HasNoMark cs ∨ ∃ front sign back, cs = front ++ 'e' :: sign :: back ∧ HasNoMark front ∧
    HasNoMark (sign :: back) ∧ sign.isDigit = false

namespace IsSigned

variable {cs : List Char}

theorem append (h : IsSigned cs) {ds : List Char} (hd : HasNoMark ds) : IsSigned (ds ++ cs) := by
  rcases h with h | ⟨front, sign, back, rfl, hf, hb, hs⟩
  · exact .inl (hd.append h)
  · exact .inr ⟨ds ++ front, sign, back, (List.append_assoc ..).symm, hd.append hf, hb, hs⟩

theorem not_mem (h : IsSigned cs) : 'E' ∉ cs := by
  intro hm
  rcases h with h | ⟨front, sign, back, rfl, hf, hb, -⟩
  · exact (h _ hm).2 rfl
  · rcases List.mem_append.mp hm with hm | hm
    · exact (hf _ hm).2 rfl
    · rcases List.mem_cons.mp hm with hm | hm
      · cases hm
      · exact (hb _ hm).2 rfl

theorem isDigit_eq_false (h : IsSigned cs) {d : Char} (hm : ['e', d] <:+: cs) :
    d.isDigit = false := by
  obtain ⟨before, behind, rfl⟩ := hm
  rcases h with h | ⟨front, sign, back, he, hf, hb, hs⟩
  · exact absurd rfl (h 'e' (by simp)).1
  · rw [List.append_assoc] at he
    have hfront : 'e' ∉ front := fun hm => (hf _ hm).1 rfl
    have hback : 'e' ∉ sign :: back := fun hm => (hb _ hm).1 rfl
    obtain ⟨-, -, hbehind⟩ := (List.append_cons_inj_of_notMem hfront hback).mp he.symm
    cases hbehind
    exact hs

end IsSigned

namespace Number

theorem isSigned_write (x : Decimal) : IsSigned (layout.write x) := by
  obtain ⟨n, e⟩ := x
  have hd := hasNoMark_digitsOf n
  have htake := fun k => hd.sublist (List.take_sublist k _)
  have hdrop := fun k => hd.sublist (List.drop_sublist k _)
  rw [write_layout]
  split
  · exact .inl ((hd.append (hasNoMark_zeros _)).append (by decide))
  split
  · exact .inl ((htake _).append ((hdrop _).cons (by decide)))
  split
  · exact .inl ((((hasNoMark_zeros _).cons (by decide)).cons (by decide)).append hd)
  refine .inr ⟨_, _, _, rfl, (htake 1).append ?_, (hasNoMark_digitsOf _).cons ?_, ?_⟩
  · split
    · exact fun c hc => absurd hc List.not_mem_nil
    · exact (hdrop 1).cons (by decide)
  · split <;> decide
  · split <;> decide

theorem isSigned_textList (n : Number) : IsSigned n.textList := by
  cases n with
  | natural n => exact .inl (hasNoMark_digitsOf n)
  | negative n => exact .inl ((hasNoMark_digitsOf n).cons (by decide))
  | double isNegative x =>
    rw [textList_double]
    refine IsSigned.append ?_ (hasNoMark_signText isNegative)
    rw [doubleText]
    split_ifs
    · exact .inl (by decide)
    · exact isSigned_write _

end Number

/-! ### Literals that come back and literals that do not -/

/-- The literals without an exponent that are written back. -/
inductive IsCanonical : List Char → Prop
  | integer {isNegative whole} (hd : ∀ c ∈ whole, c.isDigit)
      (hfits : Literal.Fits isNegative (numberOf whole)) :
      IsCanonical (signText isNegative ++ whole)
  | decimal {isNegative whole fraction} (hd : ∀ c ∈ whole, c.isDigit)
      (hf : ∀ c ∈ fraction, c.isDigit) (hshort : whole.length + fraction.length ≤ 15)
      (htrimmed : trimmed fraction = fraction) (htiny : ¬ IsTiny whole fraction) :
      IsCanonical (signText isNegative ++ (whole ++ '.' :: fraction))

/-- Literals that are written in another way than they are. -/
inductive IsAltered : List Char → Prop
  /-- Past 64 bits and for `-0` there is a fraction or an exponent. -/
  | integer {isNegative whole} (hd : ∀ c ∈ whole, c.isDigit)
      (hfits : ¬ Literal.Fits isNegative (numberOf whole)) :
      IsAltered (signText isNegative ++ whole)
  /-- The zeros at the end of a fraction are gone. -/
  | zeros {isNegative whole fraction} (hd : ∀ c ∈ whole, c.isDigit)
      (hf : ∀ c ∈ fraction, c.isDigit) (hshort : whole.length + fraction.length ≤ 15)
      (htrimmed : trimmed fraction ≠ fraction) :
      IsAltered (signText isNegative ++ (whole ++ '.' :: fraction))
  /-- Below `10 ^ -5` there is an exponent. -/
  | tiny {isNegative whole fraction} (hd : ∀ c ∈ whole, c.isDigit)
      (hf : ∀ c ∈ fraction, c.isDigit) (hshort : whole.length + fraction.length ≤ 15)
      (htiny : IsTiny whole fraction) :
      IsAltered (signText isNegative ++ (whole ++ '.' :: fraction))
  /-- The letter of an exponent is a small one. -/
  | mark {cs} (h : 'E' ∈ cs) : IsAltered cs
  /-- An exponent has a sign. -/
  | unsigned {cs d} (h : ['e', d] <:+: cs) (hd : d.isDigit) : IsAltered cs

section Text

variable {isNegative : Bool} {whole fraction : List Char} {n : Number}
  (hd : ∀ c ∈ whole, c.isDigit)

include hd

theorem textList_of_integer
    (h : readScalar (signText isNegative ++ whole) = .ok (.number n, [])) :
    n.textList = signText isNegative ++ whole ↔ Literal.Fits isNegative (numberOf whole) := by
  have hs : '-' ∉ whole := fun hm => absurd (hd _ hm) (by decide)
  obtain ⟨hw, hv⟩ := value_of_integer hd (readNumber_of_readScalar hs h)
  exact Number.textList_eq_iff_of_whole hw hv

/-- A short decimal is written back exactly if it has no zeros at its end and is not tiny. -/
theorem textList_of_decimal (hf : ∀ c ∈ fraction, c.isDigit)
    (hshort : whole.length + fraction.length ≤ 15)
    (h : readScalar (signText isNegative ++ (whole ++ '.' :: fraction)) = .ok (.number n, [])) :
    n.textList = signText isNegative ++ (whole ++ '.' :: fraction) ↔
      trimmed fraction = fraction ∧ ¬ IsTiny whole fraction := by
  have hs : '-' ∉ whole ++ '.' :: fraction := by
    rw [List.mem_append, List.mem_cons]
    rintro (hm | hm | hm)
    · exact absurd (hd _ hm) (by decide)
    · cases hm
    · exact absurd (hf _ hm) (by decide)
  obtain ⟨hw, hne, hv⟩ := value_of_decimal hd hf (readNumber_of_readScalar hs h)
  obtain ⟨htiny, hplain⟩ := textList_decimal hw hf hne hshort hv
  by_cases ht : IsTiny whole fraction
  · refine iff_of_false (fun he => ?_) (fun h => h.2 ht)
    have hmark : HasNoMark (signText isNegative ++ (whole ++ '.' :: fraction)) :=
      (hasNoMark_signText _).append
        ((hasNoMark_digits hd).append ((hasNoMark_digits hf).cons (by decide)))
    exact (hmark 'e' (he ▸ htiny ht)).1 rfl
  · rw [hplain ht, List.append_assoc, List.append_cancel_left_eq, List.append_cancel_left_eq,
      List.cons_inj_right, and_iff_left ht]

end Text

namespace Numeral

variable (n : Numeral)

/-- A canonical literal is the text of its number. -/
theorem textList_of_isCanonical (h : IsCanonical n.literal) : n.value.textList = n.literal := by
  obtain ⟨literal, value, read⟩ := n
  cases h with
  | integer hd hfits => exact (textList_of_integer hd read).mpr hfits
  | decimal hd hf hshort htrimmed htiny =>
    exact (textList_of_decimal hd hf hshort read).mpr ⟨htrimmed, htiny⟩

theorem textList_of_isAltered (h : IsAltered n.literal) : n.value.textList ≠ n.literal := by
  obtain ⟨literal, value, read⟩ := n
  intro he
  cases h with
  | integer hd hfits => exact hfits ((textList_of_integer hd read).mp he)
  | zeros hd hf hshort htrimmed =>
    exact htrimmed ((textList_of_decimal hd hf hshort read).mp he).1
  | tiny hd hf hshort htiny => exact ((textList_of_decimal hd hf hshort read).mp he).2 htiny
  | mark h => exact (value.isSigned_textList).not_mem (he ▸ h)
  | unsigned h hdigit =>
    rw [(value.isSigned_textList).isDigit_eq_false (he ▸ h)] at hdigit
    cases hdigit

end Numeral

end SearchFilter.Json
