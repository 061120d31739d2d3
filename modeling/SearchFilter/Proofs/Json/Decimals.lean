import SearchFilter.Proofs.Json.Positional

/-!
# Decimals as they are written

A decimal literal has a point with digits on both sides and no exponent. Main statement: the text of
the value of a decimal of at most fifteen digits is the literal without the zeros at the end of its
fraction, or has an exponent where the value is below `10 ^ -5`.
-/

namespace SearchFilter.Json

open Decimal (ofDigits)

variable {isNegative : Bool} {whole fraction : List Char} {n : Number}

namespace Literal

theorem gatherFraction_eq {s : Significand} {ds : List Nat} (h : ofDigits s.value ds ≤ wordMax) :
    gatherFraction s ds = ⟨ofDigits s.value ds, s.exponent - ds.length⟩ := by
  induction ds generalizing s with
  | nil => simp [gatherFraction]
  | cons d ds ih =>
    have hd := Decimal.le_ofDigits (s.value * 10 + d) ds
    rw [Decimal.ofDigits_cons] at h
    rw [gatherFraction, if_neg (by omega), ih h]
    simp only [Decimal.ofDigits_cons, List.length_cons]
    congr 1
    push_cast
    omega

theorem value_decimal (hd : ∀ c ∈ whole ++ fraction, c.isDigit)
    (hshort : whole.length + fraction.length ≤ 15)
    (h : (literalOf isNegative (digitValues whole) (some (digitValues fraction)) none).value =
      .ok n) : ∃ x, Double.ofScientific? (numberOf (whole ++ fraction)) (-(fraction.length : ℤ)) =
        some x ∧ n = .double isNegative x := by
  have hlt := numberOf_lt_of_short hd (by rwa [List.length_append])
  have hword : (10 : Nat) ^ 15 ≤ wordMax := by decide
  have hall : numberOf (whole ++ fraction) =
      ofDigits (ofDigits 0 (digitValues whole)) (digitValues fraction) := by
    rw [numberOf, digitValues_append, Decimal.ofDigits_append]
  have hwhole := Decimal.le_ofDigits (ofDigits 0 (digitValues whole)) (digitValues fraction)
  have hs : (literalOf isNegative (digitValues whole) (some (digitValues fraction))
      none).significand = ⟨numberOf (whole ++ fraction), -(fraction.length : ℤ)⟩ := by
    have hg : (literalOf isNegative (digitValues whole) (some (digitValues fraction))
        none).significand =
          gatherFraction (gatherWhole 0 (digitValues whole)) (digitValues fraction) := rfl
    rw [hg, gatherWhole_eq (by omega), gatherFraction_eq (by simp only; omega), ← hall,
      length_digitValues]
    simp only [Int.zero_sub]
  have hv : (literalOf isNegative (digitValues whole) (some (digitValues fraction)) none).value =
      double isNegative (numberOf (whole ++ fraction)) (-(fraction.length : ℤ)) := by
    simp only [value, hs]
    simp [literalOf]
  rw [hv, double] at h
  split at h
  · rename_i x hx
    cases h
    exact ⟨x, hx, rfl⟩
  · cases h

end Literal

/-- The text of a short decimal's number is the decimal without the zeros at the end of its
fraction, or has an exponent for a value below `10 ^ -5`. -/
theorem textList_decimal (hw : IsWhole whole) (hf : ∀ c ∈ fraction, c.isDigit)
    (hne : fraction ≠ []) (hshort : whole.length + fraction.length ≤ 15)
    (h : (literalOf isNegative (digitValues whole) (some (digitValues fraction)) none).value =
      .ok n) :
    (IsTiny whole fraction → 'e' ∈ n.textList) ∧
      (¬ IsTiny whole fraction →
        n.textList = signText isNegative ++ whole ++ '.' :: trimmed fraction) := by
  have hd : ∀ c ∈ whole ++ fraction, c.isDigit := List.forall_mem_append.mpr ⟨hw.isDigit, hf⟩
  obtain ⟨x, hx, rfl⟩ := Literal.value_decimal hd hshort h
  have hk : 0 < fraction.length := List.length_pos_iff.mpr hne
  rw [Number.textList_double, List.append_assoc, List.append_cancel_left_eq, List.mem_append]
  rcases Nat.eq_zero_or_pos (numberOf (whole ++ fraction)) with hzero | hpos
  · obtain ⟨rfl, hnil⟩ := eq_zeros_of_numberOf_eq_zero hw hf hzero
    rw [hzero, Double.ofScientific?_zero hk (by omega)] at hx
    cases hx
    have htrimmed : trimmed fraction = ['0'] := if_pos hnil
    rw [IsTiny, htrimmed]
    exact ⟨fun h => absurd h.2 (by decide), fun _ => rfl⟩
  · have hlt := numberOf_lt_of_short hd (by rwa [List.length_append])
    obtain ⟨hfull, hc⟩ := Double.contains_of_ofScientific? hpos hlt hk (by omega) hx
    obtain ⟨htiny, hplain⟩ := doubleText_decimal hfull hw hf hshort hpos.ne' hc
    exact ⟨fun h => .inr (htiny h), hplain⟩

end SearchFilter.Json
