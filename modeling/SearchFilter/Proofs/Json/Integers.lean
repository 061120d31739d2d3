import SearchFilter.Proofs.Json.Numerals
import SearchFilter.Proofs.Numeric.Digits

/-!
# Integers as they are written

An integer literal is digits behind a sign. Main statement: the text of its value is the literal
exactly if it fits into 64 bits and is not `-0`.
-/

namespace SearchFilter.Json

open Decimal (ofDigits digitsOf)

/-- The sign in front of a literal. -/
def signText (isNegative : Bool) : List Char := if isNegative then ['-'] else []

theorem toNat_of_isDigit {c : Char} (h : c.isDigit) : 48 ≤ c.toNat ∧ c.toNat ≤ 57 := by
  rw [Char.isDigit, Bool.and_eq_true, decide_eq_true_eq, decide_eq_true_eq] at h
  exact h

theorem digitChar_digitValue {c : Char} (h : c.isDigit) : Nat.digitChar (c.toNat - 48) = c := by
  obtain ⟨hl, hu⟩ := toNat_of_isDigit h
  rw [← Char.toNat_inj, Nat.toNat_digitChar_of_lt_ten (by omega)]
  omega

theorem lt_of_mem_digitValues {cs : List Char} (h : ∀ c ∈ cs, c.isDigit) :
    ∀ d ∈ digitValues cs, d < 10 := by
  intro d hd
  obtain ⟨c, hc, rfl⟩ := List.mem_map.mp hd
  have hu := (toNat_of_isDigit (h c hc)).2
  omega

theorem map_digitChar_digitValues {cs : List Char} (h : ∀ c ∈ cs, c.isDigit) :
    (digitValues cs).map Nat.digitChar = cs := by
  calc (digitValues cs).map Nat.digitChar
      = cs.map (Nat.digitChar ∘ fun c => c.toNat - 48) := List.map_map
    _ = cs.map id := List.map_congr_left fun c hc => digitChar_digitValue (h c hc)
    _ = cs := List.map_id cs

theorem IsWhole.digitsOf_ofDigits {whole : List Char} (h : IsWhole whole) :
    digitsOf (ofDigits 0 (digitValues whole)) = whole := by
  rcases h with rfl | ⟨⟨c, hc, hz⟩, hd⟩
  · rfl
  · obtain ⟨part, rfl⟩ := List.head?_eq_some_iff.mp hc
    have h0 : c.toNat - 48 ≠ 0 := by
      obtain ⟨hl, -⟩ := toNat_of_isDigit (hd c List.mem_cons_self)
      have hne : c.toNat ≠ 48 := fun h => hz (Char.toNat_inj.mp h)
      omega
    have hlt := lt_of_mem_digitValues hd
    rw [digitValues, List.map_cons] at hlt ⊢
    rw [Decimal.digitsOf_ofDigits hlt h0]
    exact map_digitChar_digitValues hd

namespace Literal

theorem gatherWhole_eq {value : Nat} {ds : List Nat} (h : ofDigits value ds ≤ wordMax) :
    gatherWhole value ds = ⟨ofDigits value ds, 0⟩ := by
  induction ds generalizing value with
  | nil => rfl
  | cons d ds ih =>
    have hd := Decimal.le_ofDigits (value * 10 + d) ds
    rw [Decimal.ofDigits_cons] at h
    rw [gatherWhole, if_neg (by omega), ih h, Decimal.ofDigits_cons]

theorem exponent_gatherWhole_pos {value : Nat} {ds : List Nat} (hv : value ≤ wordMax)
    (h : wordMax < ofDigits value ds) : 0 < (gatherWhole value ds).exponent := by
  induction ds generalizing value with
  | nil => exact absurd hv (Nat.not_le.mpr h)
  | cons d ds ih =>
    rw [gatherWhole]
    split_ifs with hd
    · exact Int.lt_add_one_of_le (Int.natCast_nonneg _)
    · exact ih (Nat.not_lt.mp hd) h

/-- The integers that are kept exactly. -/
def Fits : (isNegative : Bool) → (value : Nat) → Prop
  | false, value => value < 2 ^ 64
  | true, value => 0 < value ∧ value ≤ 2 ^ 63

/-- The number of an integer that fits. -/
def exactly : (isNegative : Bool) → (value : Nat) → Number
  | false, value => .natural value
  | true, value => .negative value

theorem exists_double {isNegative : Bool} {significand : Nat} {exponent : Int} {n : Number}
    (h : double isNegative significand exponent = .ok n) : ∃ x, n = .double isNegative x := by
  rw [double] at h
  split at h
  · cases h
    exact ⟨_, rfl⟩
  · cases h

theorem value_integer (isNegative : Bool) (ds : List Nat) :
    (literalOf isNegative ds none none).value =
      if (gatherWhole 0 ds).exponent = 0 then
        if isNegative = false then .ok (.natural (gatherWhole 0 ds).value)
        else if 0 < (gatherWhole 0 ds).value ∧ (gatherWhole 0 ds).value ≤ 2 ^ 63 then
          .ok (.negative (gatherWhole 0 ds).value)
        else double true (gatherWhole 0 ds).value 0
      else double isNegative (gatherWhole 0 ds).value (gatherWhole 0 ds).exponent := by
  have hs : (literalOf isNegative ds none none).significand = gatherWhole 0 ds := rfl
  simp only [value, hs]
  simp [literalOf]

theorem not_fits_of_wordMax_lt {isNegative : Bool} {value : Nat} (h : wordMax < value) :
    ¬ Fits isNegative value := by
  have hword : wordMax = 2 ^ 64 - 1 := rfl
  cases isNegative <;> simp only [Fits] <;> omega

/-- An integer that fits is kept, any other one becomes a double. -/
theorem value_whole {isNegative : Bool} {ds : List Nat} {n : Number}
    (h : (literalOf isNegative ds none none).value = .ok n) :
    (Fits isNegative (ofDigits 0 ds) ∧ n = exactly isNegative (ofDigits 0 ds)) ∨
      (¬ Fits isNegative (ofDigits 0 ds) ∧ ∃ x, n = .double isNegative x) := by
  rw [value_integer] at h
  rcases Nat.lt_or_ge wordMax (ofDigits 0 ds) with hlong | hword
  · have hexp := exponent_gatherWhole_pos (Nat.zero_le _) hlong
    rw [if_neg (by omega)] at h
    exact .inr ⟨not_fits_of_wordMax_lt hlong, exists_double h⟩
  · rw [gatherWhole_eq hword, if_pos rfl] at h
    cases isNegative with
    | false =>
      cases h
      exact .inl ⟨Nat.lt_of_le_of_lt hword (by decide), rfl⟩
    | true =>
      rw [if_neg (by decide)] at h
      split_ifs at h with hneg
      · cases h
        exact .inl ⟨hneg, rfl⟩
      · exact .inr ⟨hneg, exists_double h⟩

end Literal

namespace Number

/-- Whether a text has a point or an exponent. -/
def IsPointed (cs : List Char) : Prop := ∃ c ∈ cs, c = '.' ∨ c = 'e'

theorem isPointed_doubleText (x : Double) : IsPointed (doubleText x) := by
  rw [doubleText]
  split_ifs
  · exact ⟨'.', by decide, .inl rfl⟩
  · rw [Layout.write]
    split_ifs
    · exact ⟨'.', by simp, .inl rfl⟩
    · exact ⟨'.', by simp, .inl rfl⟩
    · exact ⟨'.', by simp, .inl rfl⟩
    · exact ⟨'e', by simp, .inr rfl⟩

theorem textList_double (isNegative : Bool) (x : Double) :
    (double isNegative x).textList = signText isNegative ++ doubleText x := by
  cases isNegative <;> rfl

/-- The text of an integer's number is its literal exactly if the integer fits. -/
theorem textList_eq_iff_of_whole {isNegative : Bool} {whole : List Char} {n : Number}
    (hw : IsWhole whole)
    (h : (literalOf isNegative (digitValues whole) none none).value = .ok n) :
    n.textList = signText isNegative ++ whole ↔
      Literal.Fits isNegative (ofDigits 0 (digitValues whole)) := by
  rcases Literal.value_whole h with ⟨hf, rfl⟩ | ⟨hf, x, rfl⟩
  · refine iff_of_true ?_ hf
    cases isNegative
    · exact hw.digitsOf_ofDigits
    · exact congrArg (List.cons '-') hw.digitsOf_ofDigits
  · refine iff_of_false ?_ hf
    rw [textList_double, List.append_cancel_left_eq]
    rintro he
    obtain ⟨c, hc, hp⟩ := isPointed_doubleText x
    rw [he] at hc
    have hd := hw.isDigit c hc
    rcases hp with rfl | rfl <;> cases hd

end Number

end SearchFilter.Json
