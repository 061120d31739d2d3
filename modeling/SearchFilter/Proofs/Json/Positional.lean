import Mathlib.Data.List.DropRight
import SearchFilter.Proofs.Json.Integers
import SearchFilter.Proofs.Numeric.Shortest

/-!
# Decimals in positional notation

The text of a double is laid out from its shortest decimal. Main statement: the text of a double
that a decimal of at most fifteen digits is rounded to is that decimal without the zeros at the end
of its fraction, unless an exponent is written for it.
-/

namespace SearchFilter.Json

open Decimal (ofDigits digitsOf)

/-! ### Positional notation -/

namespace Number

theorem write_layout (n : Nat) (e : ℤ) : layout.write ⟨n, e⟩ =
    if 0 ≤ e ∧ (digitsOf n).length + e ≤ 16 then
      digitsOf n ++ List.replicate e.toNat '0' ++ ['.', '0']
    else if 0 < (digitsOf n).length + e ∧ (digitsOf n).length + e ≤ 16 then
      (digitsOf n).take ((digitsOf n).length + e).toNat ++
        '.' :: (digitsOf n).drop ((digitsOf n).length + e).toNat
    else if -5 < (digitsOf n).length + e ∧ (digitsOf n).length + e ≤ 0 then
      '0' :: '.' :: List.replicate (-((digitsOf n).length + e)).toNat '0' ++ digitsOf n
    else
      (digitsOf n).take 1 ++ (match (digitsOf n).drop 1 with
        | [] => []
        | rest => '.' :: rest) ++ 'e' :: (if (digitsOf n).length + e - 1 < 0 then '-' else '+') ::
          decimalText ((digitsOf n).length + e - 1).natAbs := rfl

theorem write_whole {n k : Nat} (h : (digitsOf n).length + k ≤ 16) :
    layout.write ⟨n, k⟩ = digitsOf n ++ List.replicate k '0' ++ ['.', '0'] := by
  rw [write_layout, if_pos (by omega), Int.toNat_natCast]

theorem write_mixed {n k : Nat} {whole fraction : List Char} (h : digitsOf n = whole ++ fraction)
    (hk : fraction.length = k) (hf : fraction ≠ []) (hw : whole ≠ []) (hl : whole.length ≤ 16) :
    layout.write ⟨n, -k⟩ = whole ++ '.' :: fraction := by
  have hfl := List.length_pos_iff.mpr hf
  have hwl := List.length_pos_iff.mpr hw
  have hlen : (digitsOf n).length = whole.length + k := by rw [h, List.length_append, hk]
  have htake : (((digitsOf n).length : ℤ) + -k).toNat = whole.length := by omega
  rw [write_layout, if_neg (by omega), if_pos (by omega), htake, h, List.take_left, List.drop_left]

theorem write_fraction {n k zeros : Nat} (h : (digitsOf n).length + zeros = k) (hz : zeros < 5) :
    layout.write ⟨n, -k⟩ = '0' :: '.' :: List.replicate zeros '0' ++ digitsOf n := by
  have hpos := Decimal.length_digitsOf_pos n
  have hzeros : (-(((digitsOf n).length : ℤ) + -k)).toNat = zeros := by omega
  rw [write_layout, if_neg (by omega), if_neg (by omega), if_pos (by omega), hzeros]

theorem mem_write_exponent {n k zeros : Nat} (h : (digitsOf n).length + zeros = k)
    (hz : 5 ≤ zeros) : 'e' ∈ layout.write ⟨n, -k⟩ := by
  have hpos := Decimal.length_digitsOf_pos n
  rw [write_layout, if_neg (by omega), if_neg (by omega), if_neg (by omega)]
  simp

end Number

/-! ### Zeros at both ends of digits -/

/-- The number that digits spell. -/
def numberOf (cs : List Char) : Nat := ofDigits 0 (digitValues cs)

theorem digitValues_append (cs ds : List Char) :
    digitValues (cs ++ ds) = digitValues cs ++ digitValues ds := List.map_append

theorem digitValues_zeros (k : Nat) : digitValues (List.replicate k '0') = List.replicate k 0 :=
  List.map_replicate

theorem numberOf_append_zeros (cs : List Char) (k : Nat) :
    numberOf (cs ++ List.replicate k '0') = numberOf cs * 10 ^ k := by
  rw [numberOf, digitValues_append, digitValues_zeros, Decimal.ofDigits_append_zeros, numberOf]

theorem numberOf_zeros_append (k : Nat) (cs : List Char) :
    numberOf (List.replicate k '0' ++ cs) = numberOf cs := by
  rw [numberOf, digitValues_append, digitValues_zeros, Decimal.ofDigits_zeros_append, numberOf]

theorem numberOf_zeros (k : Nat) : numberOf (List.replicate k '0') = 0 := by
  have h := numberOf_zeros_append k []
  rw [List.append_nil] at h
  exact h

theorem numberOf_lt {cs : List Char} (h : ∀ c ∈ cs, c.isDigit) : numberOf cs < 10 ^ cs.length := by
  have hlt := Decimal.ofDigits_lt 0 (lt_of_mem_digitValues h)
  rwa [Nat.zero_add, Nat.one_mul, digitValues, List.length_map] at hlt

theorem numberOf_lt_of_short {cs : List Char} (h : ∀ c ∈ cs, c.isDigit) (hl : cs.length ≤ 15) :
    numberOf cs < 10 ^ 15 :=
  (numberOf_lt h).trans_le (Nat.pow_le_pow_right (by decide) hl)

theorem numberOf_append_zeros_mul (cs : List Char) (k : Nat) (e : ℤ) :
    (numberOf (cs ++ List.replicate k '0') : ℚ) * 10 ^ (e - k) = numberOf cs * 10 ^ e := by
  rw [numberOf_append_zeros, zpow_sub₀ (by norm_num), zpow_natCast]
  push_cast
  field_simp

/-- Digits without the zeros at their end. -/
def dropZeros (cs : List Char) : List Char := cs.rdropWhile (· = '0')

theorem exists_dropZeros_append (cs : List Char) :
    ∃ k, cs = dropZeros cs ++ List.replicate k '0' := by
  induction cs using List.reverseRecOn with
  | nil => exact ⟨0, rfl⟩
  | append_singleton cs c ih =>
    by_cases hc : c = '0'
    · obtain ⟨k, hk⟩ := ih
      have hdrop : dropZeros (cs ++ [c]) = dropZeros cs :=
        List.rdropWhile_concat_pos _ _ _ (by simpa using hc)
      refine ⟨k + 1, ?_⟩
      rw [hdrop, List.replicate_succ', ← List.append_assoc, ← hk, hc]
    · have hdrop : dropZeros (cs ++ [c]) = cs ++ [c] :=
        List.rdropWhile_concat_neg _ _ _ (by simpa using hc)
      exact ⟨0, by rw [hdrop, List.replicate_zero, List.append_nil]⟩

theorem mem_of_mem_dropZeros {cs : List Char} {c : Char} (h : c ∈ dropZeros cs) : c ∈ cs :=
  (List.rdropWhile_prefix _ cs).subset h

theorem numberOf_append_dropZeros_mod (ds : List Char) {cs : List Char} (hd : ∀ c ∈ cs, c.isDigit)
    (h : dropZeros cs ≠ []) : numberOf (ds ++ dropZeros cs) % 10 ≠ 0 := by
  have hlast : ¬ decide ((dropZeros cs).getLast h = '0') = true := List.rdropWhile_last_not _ cs h
  generalize hk : dropZeros cs = kept at *
  have hc : (kept.getLast h).isDigit := by
    refine hd _ (mem_of_mem_dropZeros ?_)
    rw [hk]
    exact List.getLast_mem h
  obtain ⟨hl, hu⟩ := toNat_of_isDigit hc
  have hne : (kept.getLast h).toNat ≠ 48 := fun he =>
    hlast (decide_eq_true (Char.toNat_inj.mp he))
  rw [← List.dropLast_append_getLast h, ← List.append_assoc, numberOf, digitValues_append]
  rw [show digitValues [kept.getLast h] = [(kept.getLast h).toNat - 48] from rfl]
  rw [Decimal.ofDigits_concat_mod]
  omega

theorem exists_zeros_append (cs : List Char) :
    ∃ k rest, cs = List.replicate k '0' ++ rest ∧ rest.head? ≠ some '0' := by
  induction cs with
  | nil => exact ⟨0, [], rfl, by simp⟩
  | cons c cs ih =>
    by_cases hc : c = '0'
    · obtain ⟨k, rest, hk, hr⟩ := ih
      exact ⟨k + 1, rest, by rw [List.replicate_succ, List.cons_append, ← hk, hc], hr⟩
    · exact ⟨0, c :: cs, rfl, by simpa using hc⟩

/-- Digits that do not start with a zero are written back. -/
theorem digitsOf_numberOf {cs : List Char} (hd : ∀ c ∈ cs, c.isDigit) (hne : cs ≠ [])
    (hz : cs.head? ≠ some '0') : digitsOf (numberOf cs) = cs := by
  obtain ⟨c, rest, rfl⟩ := List.exists_cons_of_ne_nil hne
  have hw : IsWhole (c :: rest) := .inr ⟨⟨c, rfl, fun h => hz (congrArg some h)⟩, hd⟩
  exact hw.digitsOf_ofDigits

/-! ### The text of a double that a short decimal is read to -/

/-- A fraction without the zeros at its end, or one zero if nothing is left. -/
def trimmed (fraction : List Char) : List Char :=
  if dropZeros fraction = [] then ['0'] else dropZeros fraction

/-- Five zeros in front take a fraction below the positional notation. -/
def IsTiny (whole fraction : List Char) : Prop :=
  whole = ['0'] ∧ List.replicate 5 '0' <+: trimmed fraction

theorem dropZeros_ne_nil {cs : List Char} (h : numberOf cs ≠ 0) : dropZeros cs ≠ [] := by
  intro hnil
  obtain ⟨k, hk⟩ := exists_dropZeros_append cs
  rw [hk, hnil, List.nil_append, numberOf_zeros] at h
  exact h rfl

theorem length_dropZeros_le (cs : List Char) : (dropZeros cs).length ≤ cs.length :=
  (List.rdropWhile_prefix _ cs).length_le

theorem head?_dropZeros {cs : List Char} (h : dropZeros cs ≠ []) :
    (dropZeros cs).head? = cs.head? := by
  obtain ⟨k, hk⟩ := exists_dropZeros_append cs
  conv_rhs => rw [hk]
  rw [List.head?_append_of_ne_nil _ h]

theorem IsWhole.ne_nil {whole : List Char} (hw : IsWhole whole) : whole ≠ [] := by
  rintro rfl
  rcases hw with h | ⟨⟨c, hc, -⟩, -⟩
  · cases h
  · cases hc

theorem IsWhole.head?_ne {whole : List Char} (hw : IsWhole whole) (h : whole ≠ ['0']) :
    whole.head? ≠ some '0' := by
  rcases hw with rfl | ⟨⟨c, hc, hz⟩, -⟩
  · exact absurd rfl h
  · rw [Option.mem_def.mp hc]
    exact fun he => hz (Option.some.inj he)

theorem replicate_prefix_iff {k z : Nat} {rest : List Char} (hr : rest.head? ≠ some '0') :
    List.replicate k '0' <+: List.replicate z '0' ++ rest ↔ k ≤ z := by
  constructor
  · intro h
    by_contra hlt
    obtain ⟨j, rfl⟩ : ∃ j, k = z + (j + 1) := ⟨k - z - 1, by omega⟩
    rw [List.replicate_add, List.prefix_append_right_inj, List.replicate_succ] at h
    obtain ⟨tail, ht⟩ := h
    rw [← ht] at hr
    exact hr rfl
  · intro h
    obtain ⟨j, rfl⟩ := Nat.exists_eq_add_of_le h
    rw [List.replicate_add, List.append_assoc]
    exact List.prefix_append _ _

/-- Digits behind a zero are written in positional notation unless they start with five zeros. -/
theorem write_of_zero {kept : List Char} (hd : ∀ c ∈ kept, c.isDigit)
    (hmod : numberOf kept % 10 ≠ 0) :
    (List.replicate 5 '0' <+: kept →
        'e' ∈ Number.layout.write ⟨numberOf kept, -(kept.length : ℤ)⟩) ∧
      (¬ List.replicate 5 '0' <+: kept →
        Number.layout.write ⟨numberOf kept, -(kept.length : ℤ)⟩ = '0' :: '.' :: kept) := by
  obtain ⟨z, rest, rfl, hrest⟩ := exists_zeros_append kept
  rw [numberOf_zeros_append] at hmod ⊢
  have hrest' : rest ≠ [] := by
    rintro rfl
    exact hmod rfl
  have hwritten : digitsOf (numberOf rest) = rest :=
    digitsOf_numberOf (fun c hc => hd c (List.mem_append_right _ hc)) hrest' hrest
  have hlength : (digitsOf (numberOf rest)).length + z =
      (List.replicate z '0' ++ rest).length := by
    rw [hwritten, List.length_append, List.length_replicate, Nat.add_comm]
  rw [replicate_prefix_iff hrest]
  refine ⟨fun h => Number.mem_write_exponent hlength h, fun h => ?_⟩
  rw [Number.write_fraction hlength (Nat.not_le.mp h), hwritten]
  rfl

theorem write_of_whole {whole kept : List Char} (hw : IsWhole whole) (hz : whole ≠ ['0'])
    (hl : whole.length ≤ 16) (hd : ∀ c ∈ kept, c.isDigit) (hne : kept ≠ []) :
    Number.layout.write ⟨numberOf (whole ++ kept), -(kept.length : ℤ)⟩ =
      whole ++ '.' :: kept := by
  have hall : ∀ c ∈ whole ++ kept, c.isDigit := List.forall_mem_append.mpr ⟨hw.isDigit, hd⟩
  have hhead : (whole ++ kept).head? ≠ some '0' := by
    rw [List.head?_append_of_ne_nil _ hw.ne_nil]
    exact hw.head?_ne hz
  have hwritten := digitsOf_numberOf hall (List.append_ne_nil_of_left_ne_nil hw.ne_nil _) hhead
  exact Number.write_mixed hwritten rfl hne hw.ne_nil hl

section Text

variable {x : Double} {whole fraction : List Char}

theorem doubleText_of_shortest {d : Decimal} (hx : Numeric.twoPow 52 ≤ x.mantissa)
    (h : Decimal.shortest x = d) : Number.doubleText x = Number.layout.write d := by
  have hz : x.isZero = false := by
    have := (Numeric.twoPow_pos 52).trans_le hx
    exact decide_eq_false (by omega)
  rw [Number.doubleText, hz, h]
  rfl

variable (hx : Numeric.twoPow 52 ≤ x.mantissa) (hw : IsWhole whole)
  (hshort : whole.length + fraction.length ≤ 15)
  (hc : (Decimal.Cell.of x).Contains
    (numberOf (whole ++ fraction) * 10 ^ (-(fraction.length : ℤ))))

include hx hw hshort hc

theorem doubleText_of_dropZeros_eq_nil (hpos : numberOf (whole ++ fraction) ≠ 0)
    (hnil : dropZeros fraction = []) : Number.doubleText x = whole ++ ['.', '0'] := by
  obtain ⟨k, rfl⟩ : ∃ k, fraction = List.replicate k '0' := by
    obtain ⟨k, hk⟩ := exists_dropZeros_append fraction
    exact ⟨k, by rw [hk, hnil, List.nil_append]⟩
  obtain ⟨z, hz⟩ := exists_dropZeros_append whole
  have hwhole : numberOf whole ≠ 0 := by
    intro h0
    rw [numberOf_append_zeros, h0, Nat.zero_mul] at hpos
    exact hpos rfl
  have hne := dropZeros_ne_nil hwhole
  have hdigits : ∀ c ∈ dropZeros whole, c.isDigit := fun c hc =>
    hw.isDigit c (mem_of_mem_dropZeros hc)
  have hhead : (dropZeros whole).head? ≠ some '0' := by
    rw [head?_dropZeros hne]
    refine hw.head?_ne ?_
    rintro rfl
    exact hwhole rfl
  have hwritten := digitsOf_numberOf hdigits hne hhead
  have hlength : whole.length = (dropZeros whole).length + z := by
    conv_lhs => rw [hz]
    rw [List.length_append, List.length_replicate]
  have hvalue : (numberOf (whole ++ List.replicate k '0') : ℚ) *
      10 ^ (-((List.replicate k '0').length : ℤ)) =
        Decimal.value ⟨numberOf (dropZeros whole), z⟩ := by
    rw [List.length_replicate, ← zero_sub, numberOf_append_zeros_mul, Decimal.value,
      ← sub_self (z : ℤ)]
    conv_lhs => rw [hz]
    exact numberOf_append_zeros_mul _ _ _
  rw [hvalue] at hc
  have hshortest := Decimal.shortest_eq hx hc (numberOf_lt_of_short hdigits (by omega))
    (numberOf_append_dropZeros_mod [] hw.isDigit hne)
  rw [doubleText_of_shortest hx hshortest, Number.write_whole (by rw [hwritten]; omega), hwritten,
    ← hz]

variable (hf : ∀ c ∈ fraction, c.isDigit) (hne : dropZeros fraction ≠ [])

include hf hne

theorem shortest_of_dropZeros_ne_nil : Decimal.shortest x =
    ⟨numberOf (whole ++ dropZeros fraction), -((dropZeros fraction).length : ℤ)⟩ := by
  obtain ⟨k, hk⟩ := exists_dropZeros_append fraction
  have hdigits : ∀ c ∈ whole ++ dropZeros fraction, c.isDigit :=
    List.forall_mem_append.mpr ⟨hw.isDigit, fun c hc => hf c (mem_of_mem_dropZeros hc)⟩
  have hl : (whole ++ dropZeros fraction).length ≤ 15 := by
    have := length_dropZeros_le fraction
    rw [List.length_append]
    omega
  have hexponent : -(fraction.length : ℤ) = -((dropZeros fraction).length : ℤ) - k := by
    conv_lhs => rw [hk]
    rw [List.length_append, List.length_replicate]
    push_cast
    omega
  have hvalue : (numberOf (whole ++ fraction) : ℚ) * 10 ^ (-(fraction.length : ℤ)) =
      Decimal.value
        ⟨numberOf (whole ++ dropZeros fraction), -((dropZeros fraction).length : ℤ)⟩ := by
    have hnumber : numberOf (whole ++ fraction) =
        numberOf (whole ++ dropZeros fraction ++ List.replicate k '0') := by
      conv_lhs => rw [hk]
      rw [List.append_assoc]
    rw [hexponent, hnumber, Decimal.value]
    exact numberOf_append_zeros_mul _ _ _
  rw [hvalue] at hc
  exact Decimal.shortest_eq hx hc (numberOf_lt_of_short hdigits hl)
    (numberOf_append_dropZeros_mod whole hf hne)

theorem doubleText_of_dropZeros_ne_nil :
    (IsTiny whole fraction → 'e' ∈ Number.doubleText x) ∧
      (¬ IsTiny whole fraction → Number.doubleText x = whole ++ '.' :: dropZeros fraction) := by
  have hshortest := shortest_of_dropZeros_ne_nil hx hw hshort hc hf hne
  rw [doubleText_of_shortest hx hshortest, IsTiny, trimmed, if_neg hne]
  have hdigits : ∀ c ∈ dropZeros fraction, c.isDigit := fun c hc => hf c (mem_of_mem_dropZeros hc)
  by_cases hz : whole = ['0']
  · subst hz
    have hzero : numberOf (['0'] ++ dropZeros fraction) = numberOf (dropZeros fraction) :=
      numberOf_zeros_append 1 _
    rw [hzero, eq_self_iff_true, true_and]
    exact write_of_zero hdigits (numberOf_append_dropZeros_mod [] hf hne)
  · refine ⟨fun h => absurd h.1 hz, fun _ => ?_⟩
    exact write_of_whole hw hz (by omega) hdigits hne

end Text

variable {whole fraction : List Char}

/-- The text of a decimal other than zero. -/
theorem doubleText_decimal {x : Double} (hx : Numeric.twoPow 52 ≤ x.mantissa)
    (hw : IsWhole whole) (hf : ∀ c ∈ fraction, c.isDigit)
    (hshort : whole.length + fraction.length ≤ 15) (hpos : numberOf (whole ++ fraction) ≠ 0)
    (hc : (Decimal.Cell.of x).Contains
      (numberOf (whole ++ fraction) * 10 ^ (-(fraction.length : ℤ)))) :
    (IsTiny whole fraction → 'e' ∈ Number.doubleText x) ∧
      (¬ IsTiny whole fraction → Number.doubleText x = whole ++ '.' :: trimmed fraction) := by
  by_cases hnil : dropZeros fraction = []
  · have htrimmed : trimmed fraction = ['0'] := if_pos hnil
    refine ⟨fun h => ?_, fun _ => ?_⟩
    · rw [IsTiny, htrimmed] at h
      exact absurd h.2 (by decide)
    · rw [htrimmed]
      exact doubleText_of_dropZeros_eq_nil hx hw hshort hc hpos hnil
  · have htrimmed : trimmed fraction = dropZeros fraction := if_neg hnil
    rw [htrimmed]
    exact doubleText_of_dropZeros_ne_nil hx hw hshort hc hf hnil

theorem eq_zeros_of_numberOf_eq_zero (hw : IsWhole whole) (hf : ∀ c ∈ fraction, c.isDigit)
    (h : numberOf (whole ++ fraction) = 0) : whole = ['0'] ∧ dropZeros fraction = [] := by
  constructor
  · have hle : numberOf whole ≤ numberOf (whole ++ fraction) := by
      rw [numberOf, numberOf, digitValues_append, Decimal.ofDigits_append]
      exact Decimal.le_ofDigits _ _
    have hzero : numberOf whole = 0 := Nat.le_zero.mp (h ▸ hle)
    have hwritten : digitsOf (numberOf whole) = whole := hw.digitsOf_ofDigits
    rw [← hwritten, hzero]
    rfl
  · by_contra hne
    obtain ⟨k, hk⟩ := exists_dropZeros_append fraction
    rw [hk, ← List.append_assoc, numberOf_append_zeros] at h
    have hmod := numberOf_append_dropZeros_mod whole hf hne
    rcases Nat.mul_eq_zero.mp h with h | h
    · rw [h] at hmod
      exact hmod rfl
    · exact absurd h (Nat.pow_pos (by decide)).ne'

end SearchFilter.Json
