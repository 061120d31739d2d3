import SearchFilter.Proofs.Numeric.Rounding

/-!
# The decimal of a double with the fewest digits

A cell is narrower than the steps between the decimals of few digits, so at most one of them lies in
it. Main statement: a decimal of at most fifteen digits is the one that is written for the double
whose cell it lies in.
-/

namespace SearchFilter

open Numeric (twoPow tenPow)

namespace Decimal

/-- The number that a decimal stands for. -/
def value (d : Decimal) : ℚ := d.digits * 10 ^ d.exponent

theorem shift_spec {num den a b : Nat} {e : ℤ} (hd : 0 < den) (h : shift num den e = (a, b)) :
    0 < b ∧ (a : ℚ) / b = (num : ℚ) / den / 10 ^ e :=
  scaled_spec (by norm_num) Numeric.cast_tenPow hd h

theorem length_digitsOf_pos (n : Nat) : 0 < (digitsOf n).length := Nat.length_toDigits_pos

theorem lt_pow_length_digitsOf (n : Nat) : n < 10 ^ (digitsOf n).length :=
  (Nat.length_toDigits_le_iff (by decide) (length_digitsOf_pos n)).mp (Nat.le_refl _)

theorem pow_le_of_digitsOf {n : Nat} (hn : 0 < n) : 10 ^ ((digitsOf n).length - 1) ≤ n := by
  rcases Nat.eq_zero_or_pos ((digitsOf n).length - 1) with h | h
  · rw [h]
    exact hn
  · by_contra hlt
    have hle : (digitsOf n).length ≤ (digitsOf n).length - 1 :=
      (Nat.length_toDigits_le_iff (by decide) h).mpr (Nat.not_le.mp hlt)
    omega

theorem exists_length_digitsOf {n : Nat} (hn : 0 < n) :
    ∃ k, (digitsOf n).length = k + 1 ∧ 10 ^ k ≤ n ∧ n < 10 ^ (k + 1) := by
  obtain ⟨k, hk⟩ : ∃ k, (digitsOf n).length = k + 1 :=
    ⟨_, (Nat.succ_pred (length_digitsOf_pos n).ne').symm⟩
  have hlow := pow_le_of_digitsOf hn
  have hhigh := lt_pow_length_digitsOf n
  rw [hk] at hlow hhigh
  exact ⟨k, hk, hlow, hhigh⟩

section Magnitude

variable {num den : Nat} (hn : 0 < num) (hd : 0 < den)

include hd in
theorem magnitude_spec_of_le (hle : den ≤ num) : (10 : ℚ) ^ magnitude num den ≤ num / den ∧
    (num : ℚ) / den < 10 ^ (magnitude num den + 1) := by
  obtain ⟨k, hk, hlow, hhigh⟩ := exists_length_digitsOf (Nat.div_pos hle hd)
  rw [← natCast_le_div_iff hd] at hlow
  rw [← div_lt_natCast_iff hd] at hhigh
  have hm : magnitude num den = k := by
    rw [magnitude, if_pos hle, hk]
    push_cast
    exact add_sub_cancel_right _ _
  rw [hm]
  exact ⟨by exact_mod_cast hlow, by exact_mod_cast hhigh⟩

include hn in
theorem magnitude_spec_of_lt (hlt : num < den) : (10 : ℚ) ^ magnitude num den ≤ num / den ∧
    (num : ℚ) / den < 10 ^ (magnitude num den + 1) := by
  have hn' : (0 : ℚ) < num := by positivity
  have hd' : (0 : ℚ) < den := by exact_mod_cast hn.trans hlt
  have hten : (10 : ℚ) ≠ 0 := by norm_num
  obtain ⟨k, hk, hlow, hhigh⟩ := exists_length_digitsOf (Nat.div_pos hlt.le hn)
  rw [← natCast_le_div_iff hn, le_div_iff₀ hn'] at hlow
  rw [← div_lt_natCast_iff hn, div_lt_iff₀ hn'] at hhigh
  push_cast at hlow hhigh
  have hp : (0 : ℚ) < 10 ^ k := by positivity
  have hinv : (10 : ℚ) ^ (-(k : ℤ)) = 1 / 10 ^ k := by
    rw [zpow_neg, zpow_natCast, one_div]
  rw [magnitude, if_neg (Nat.not_le.mpr hlt), hk, Nat.add_sub_cancel]
  dsimp only
  split_ifs with ht
  · have ht' : (den : ℚ) ≤ num * 10 ^ k := by exact_mod_cast ht
    have hinv' : (10 : ℚ) ^ (-(k : ℤ) + 1) = 10 / 10 ^ k := by
      rw [zpow_add_one₀ hten, hinv]
      field_simp
    rw [hinv, hinv', div_le_div_iff₀ hp hd', div_lt_div_iff₀ hd' hp]
    constructor <;> linarith
  · have ht' : (num : ℚ) * 10 ^ k < den := by exact_mod_cast Nat.not_le.mp ht
    have hinv' : (10 : ℚ) ^ (-(k : ℤ) - 1) = 1 / 10 ^ (k + 1) := by
      rw [zpow_sub_one₀ hten, hinv, pow_succ]
      field_simp
    rw [sub_add_cancel, hinv, hinv', div_le_div_iff₀ (by positivity) hd', div_lt_div_iff₀ hd' hp]
    constructor <;> linarith

include hn hd in
theorem magnitude_spec : (10 : ℚ) ^ magnitude num den ≤ num / den ∧
    (num : ℚ) / den < 10 ^ (magnitude num den + 1) := by
  rcases Nat.lt_or_ge num den with h | h
  · exact magnitude_spec_of_lt hn h
  · exact magnitude_spec_of_le hd h

end Magnitude

namespace Cell

variable {c : Cell}

theorem Contains.convex {a b r : ℚ} (ha : c.Contains a) (hb : c.Contains b) (har : a ≤ r)
    (hrb : r ≤ b) : c.Contains r := by
  obtain ⟨hlow, -, hopen⟩ := ha
  obtain ⟨-, hhigh, hopen'⟩ := hb
  refine ⟨hlow.trans har, hrb.trans hhigh, fun hc => ?_⟩
  exact ⟨(hopen hc).1.trans_le har, hrb.trans_lt (hopen' hc).2⟩

theorem holds_iff (hd : 0 < c.den) {e : ℤ} {digits : Nat} :
    c.holds e digits = true ↔ c.Contains (digits * 10 ^ e) := by
  have hd' : (0 : ℚ) < c.den := by positivity
  have hs : (0 : ℚ) < 10 ^ (-e).toNat := by positivity
  have hr : (digits : ℚ) * 10 ^ e = digits * 10 ^ e.toNat / 10 ^ (-e).toNat := by
    rw [zpow_eq_div (by norm_num), mul_div_assoc]
  have hlow : (c.low : ℚ) / c.den ≤ digits * 10 ^ e ↔
      c.low * tenPow (-e).toNat ≤ digits * tenPow e.toNat * c.den := by
    rw [hr, div_le_div_iff₀ hd' hs]
    exact_mod_cast Iff.rfl
  have hhigh : digits * 10 ^ e ≤ (c.high : ℚ) / c.den ↔
      digits * tenPow e.toNat * c.den ≤ c.high * tenPow (-e).toNat := by
    rw [hr, div_le_div_iff₀ hs hd']
    exact_mod_cast Iff.rfl
  have hlow' : (c.low : ℚ) / c.den < digits * 10 ^ e ↔
      c.low * tenPow (-e).toNat < digits * tenPow e.toNat * c.den := by
    rw [hr, div_lt_div_iff₀ hd' hs]
    exact_mod_cast Iff.rfl
  have hhigh' : digits * 10 ^ e < (c.high : ℚ) / c.den ↔
      digits * tenPow e.toNat * c.den < c.high * tenPow (-e).toNat := by
    rw [hr, div_lt_div_iff₀ hs hd']
    exact_mod_cast Iff.rfl
  rw [holds, Contains, hlow, hhigh, hlow', hhigh']
  cases c.closed
  · simp only [Bool.false_eq_true, if_false, Bool.and_eq_true, decide_eq_true_eq, true_implies]
    exact ⟨fun h => ⟨h.1.le, h.2.le, h⟩, fun h => h.2.2⟩
  · simp

/-- The exponent of the decimals with `n` digits that are looked at. -/
def exponent (c : Cell) (n : Nat) : ℤ := magnitude c.value c.den - n + 1

theorem contains_of_nearest? (hd : 0 < c.den) {n : Nat} {d : Decimal}
    (h : c.nearest? n = some d) : d.exponent = c.exponent n ∧ c.Contains d.value := by
  rw [nearest?] at h
  dsimp only at h
  split_ifs at h with hdown hup
  · cases h
    rw [Bool.and_eq_true] at hdown
    exact ⟨rfl, (holds_iff hd).mp hdown.1⟩
  · cases h
    exact ⟨rfl, (holds_iff hd).mp hup⟩

/-- If any decimal with so few digits lies in the cell then one next to its value does. -/
theorem isSome_nearest? (hd : 0 < c.den) (hv : c.Contains (c.value / c.den)) {n j : Nat}
    (hj : c.Contains (j * 10 ^ c.exponent n)) : (c.nearest? n).isSome := by
  obtain ⟨a, b, hs⟩ : ∃ a b, shift c.value c.den (c.exponent n) = (a, b) := ⟨_, _, rfl⟩
  obtain ⟨hb, hab⟩ := shift_spec hd hs
  have hp : (0 : ℚ) < 10 ^ c.exponent n := by positivity
  have hbelow : ((a / b : Nat) : ℚ) * 10 ^ c.exponent n ≤ c.value / c.den := by
    rw [← le_div_iff₀ hp, ← hab, natCast_le_div_iff hb]
  have habove : (c.value : ℚ) / c.den < ((a / b + 1 : Nat) : ℚ) * 10 ^ c.exponent n := by
    rw [← div_lt_iff₀ hp, ← hab, div_lt_natCast_iff hb]
    exact Nat.lt_succ_self _
  have hcases : c.holds (c.exponent n) (a / b) = true ∨
      c.holds (c.exponent n) (a / b + 1) = true := by
    rw [holds_iff hd, holds_iff hd]
    rcases Nat.lt_or_ge (a / b) j with h | h
    · refine .inr (hv.convex hj habove.le ?_)
      apply mul_le_mul_of_nonneg_right _ hp.le
      exact_mod_cast h
    · refine .inl (hj.convex hv ?_ hbelow)
      apply mul_le_mul_of_nonneg_right _ hp.le
      exact_mod_cast h
  rw [nearest?]
  dsimp only
  rw [← exponent, hs]
  dsimp only
  cases hup : c.holds (c.exponent n) (a / b + 1) with
  | true =>
    simp only [if_true]
    split_ifs <;> rfl
  | false =>
    have hdown : c.holds (c.exponent n) (a / b) = true := hcases.resolve_right (by simp [hup])
    simp [hdown]

/-- No two multiples of a power that is wider than the cell lie in it. -/
theorem eq_of_contains {q : ℤ} (hw : (c.high : ℚ) / c.den - c.low / c.den < 10 ^ q) {j k : Nat}
    (hj : c.Contains (j * 10 ^ q)) (hk : c.Contains (k * 10 ^ q)) : j = k := by
  have hp : (0 : ℚ) < 10 ^ q := by positivity
  have hle : ∀ {j k : Nat}, c.Contains (j * 10 ^ q) → c.Contains (k * 10 ^ q) → j ≤ k := by
    intro j k hj hk
    have hlt : ((j : ℚ) - k) * 10 ^ q < 1 * 10 ^ q := by
      rw [sub_mul, one_mul]
      linarith [hj.2.1, hk.1]
    have hlt' : (j : ℚ) < (k + 1 : Nat) := by
      push_cast
      linarith [lt_of_mul_lt_mul_right hlt hp.le]
    exact Nat.lt_succ_iff.mp (Nat.cast_lt.mp hlt')
  exact Nat.le_antisymm (hle hj hk) (hle hk hj)

end Cell

theorem value_go (n : Nat) (d : Decimal) : (stripZeros.go n d).value = d.value := by
  induction n generalizing d with
  | zero => rfl
  | succ n ih =>
    rw [stripZeros.go]
    split_ifs with h
    · have hd : (d.digits : ℚ) = 10 * (d.digits / 10 : Nat) := by
        exact_mod_cast (Nat.mul_div_cancel' (Nat.dvd_of_mod_eq_zero h.2)).symm
      rw [ih, value, value, hd, zpow_add_one₀ (by norm_num)]
      ring
    · rfl

theorem value_stripZeros (d : Decimal) : d.stripZeros.value = d.value := value_go _ d

theorem go_mod_ten {n : Nat} {d : Decimal} (hd : d.digits ≠ 0) (hn : d.digits < 10 ^ n) :
    (stripZeros.go n d).digits % 10 ≠ 0 := by
  induction n generalizing d with
  | zero => exact absurd (Nat.lt_one_iff.mp hn) hd
  | succ n ih =>
    rw [stripZeros.go]
    split_ifs with h
    · rw [Nat.pow_succ] at hn
      refine ih ?_ ?_
      · dsimp only
        omega
      · dsimp only
        omega
    · exact fun hm => h ⟨hd, hm⟩

theorem stripZeros_mod_ten {d : Decimal} (hd : d.digits ≠ 0) : d.stripZeros.digits % 10 ≠ 0 :=
  go_mod_ten hd (lt_pow_length_digitsOf _)

theorem exists_mul_pow {q : ℤ} (d : Decimal) (h : q ≤ d.exponent) :
    d.value = ((d.digits * 10 ^ (d.exponent - q).toNat : Nat) : ℚ) * 10 ^ q := by
  have he : d.exponent = ((d.exponent - q).toNat : ℤ) + q := by omega
  rw [value]
  conv_lhs => rw [he]
  rw [zpow_add₀ (by norm_num), zpow_natCast]
  push_cast
  ring

theorem eq_of_value_eq {d d' : Decimal} (hd : d.digits % 10 ≠ 0) (hd' : d'.digits % 10 ≠ 0)
    (h : d.value = d'.value) : d = d' := by
  have hle : ∀ {d d' : Decimal}, d.digits % 10 ≠ 0 → d.value = d'.value →
      d.exponent ≤ d'.exponent → d = d' := by
    intro d d' hd h he
    rw [exists_mul_pow d' he, value, mul_left_inj' (by positivity), Nat.cast_inj] at h
    rcases Nat.eq_zero_or_pos (d'.exponent - d.exponent).toNat with hk | hk
    · rw [hk, Nat.pow_zero, Nat.mul_one] at h
      have he' : d.exponent = d'.exponent := by omega
      cases d
      cases d'
      exact congrArg₂ mk h he'
    · obtain ⟨k, hk⟩ : ∃ k, (d'.exponent - d.exponent).toNat = k + 1 :=
        ⟨_, (Nat.succ_pred hk.ne').symm⟩
      rw [hk, Nat.pow_succ, ← Nat.mul_assoc] at h
      rw [h, Nat.mul_mod_left] at hd
      exact absurd rfl hd
  rcases le_total d.exponent d'.exponent with he | he
  · exact hle hd h he
  · exact (hle hd' h.symm he).symm

theorem mem_of_range_eq_append {m n k : Nat} {before after : List Nat}
    (h : List.range m = before ++ n :: after) (hk : k < n) : k ∈ before := by
  have hn : n < m := by
    rw [← List.mem_range, h]
    exact List.mem_append_right _ List.mem_cons_self
  have hmem : k ∈ before ++ n :: after := by
    rw [← h, List.mem_range]
    exact hk.trans hn
  have hsorted : (before ++ n :: after).Pairwise (· < ·) := h ▸ List.pairwise_lt_range
  rcases List.mem_append.mp hmem with hb | ha
  · exact hb
  · have hle : n ≤ k := by
      rcases List.mem_cons.mp ha with rfl | ha
      · exact Nat.le_refl _
      · exact Nat.le_of_lt (List.rel_of_pairwise_cons (List.pairwise_append.mp hsorted).2.1 ha)
    exact absurd hk (Nat.not_lt.mpr hle)

/-- If a decimal of the cell has steps wider than the cell and can be reached with seventeen digits,
then the search stops at its value. -/
theorem exists_of_findSome? {c : Cell} {d : Decimal} {q : ℤ} (hden : 0 < c.den)
    (hv : c.Contains (c.value / c.den)) (hd : c.Contains d.value)
    (hw : (c.high : ℚ) / c.den - c.low / c.den < 10 ^ q) (hq : q ≤ d.exponent)
    (hmag : q ≤ magnitude c.value c.den) (hreach : magnitude c.value c.den - q < 17) :
    ∃ w, (List.range 17).findSome? (fun n => c.nearest? (n + 1)) = some w ∧ w.value = d.value := by
  obtain ⟨steps, hsteps⟩ : ∃ steps : Nat, (steps : ℤ) = magnitude c.value c.den - q :=
    ⟨(magnitude c.value c.den - q).toNat, by omega⟩
  have hfound : (c.nearest? (steps + 1)).isSome := by
    apply Cell.isSome_nearest? hden hv
    have he : c.exponent (steps + 1) = q := by
      rw [Cell.exponent]
      push_cast
      omega
    rw [he, ← exists_mul_pow d hq]
    exact hd
  obtain ⟨w, hw'⟩ : ∃ w, (List.range 17).findSome? (fun n => c.nearest? (n + 1)) = some w := by
    rw [← Option.isSome_iff_exists, List.findSome?_isSome_iff]
    exact ⟨steps, List.mem_range.mpr (by omega), hfound⟩
  refine ⟨w, hw', ?_⟩
  obtain ⟨before, n, after, hl, hn, hnone⟩ := List.findSome?_eq_some_iff.mp hw'
  have hle : n ≤ steps := by
    by_contra hlt
    have hnone := hnone steps (mem_of_range_eq_append hl (Nat.not_le.mp hlt))
    rw [hnone] at hfound
    cases hfound
  obtain ⟨he, hc⟩ := Cell.contains_of_nearest? hden hn
  have hq' : q ≤ w.exponent := by
    rw [he, Cell.exponent]
    push_cast
    omega
  rw [exists_mul_pow w hq'] at hc ⊢
  rw [exists_mul_pow d hq] at hd ⊢
  rw [Cell.eq_of_contains hw hc hd]

variable {x : Double}

theorem Cell.value_pos (hx : twoPow 52 ≤ x.mantissa) : 0 < (Cell.of x).value := by
  have hm : 0 < x.mantissa := (Numeric.twoPow_pos 52).trans_le hx
  exact Nat.mul_pos (Nat.mul_pos (by decide) hm) (Numeric.twoPow_pos _)

theorem Cell.contains_value (hx : twoPow 52 ≤ x.mantissa) : (Cell.of x).Contains x.value := by
  have hv : x.value = 4 * x.mantissa * 2 ^ (x.exponent - 2) := by
    rw [Double.value, zpow_sub₀ two_ne_zero]
    ring
  have hgap : (0 : ℚ) ≤ gap x := Nat.cast_nonneg _
  rw [hv]
  refine contains_of ((Numeric.twoPow_pos 52).trans_le hx) ?_ ?_ fun _ => ⟨?_, ?_⟩ <;> linarith

theorem Cell.width_le (hx : twoPow 52 ≤ x.mantissa) :
    ((Cell.of x).high : ℚ) / (Cell.of x).den - (Cell.of x).low / (Cell.of x).den ≤
      2 ^ x.exponent := by
  have hgap : gap x ≤ 4 * x.mantissa := by
    have := gap_le x
    have := (Numeric.twoPow_pos 52).trans_le hx
    omega
  have hu : (0 : ℚ) < 2 ^ (x.exponent - 2) := by positivity
  have hscale : (2 : ℚ) ^ x.exponent = 4 * 2 ^ (x.exponent - 2) := by
    rw [zpow_sub₀ two_ne_zero]
    ring
  have hgap' : (gap x : ℚ) ≤ 2 := by exact_mod_cast gap_le x
  rw [high_of, low_of, hscale, ← sub_mul, Nat.cast_sub hgap]
  apply mul_le_mul_of_nonneg_right _ hu.le
  push_cast
  linarith

theorem Cell.place_le_value (hx : twoPow 52 ≤ x.mantissa) :
    (2 : ℚ) ^ 52 * 2 ^ x.exponent ≤ x.value := by
  have hx' : (2 : ℚ) ^ 52 ≤ x.mantissa := by exact_mod_cast hx
  rw [Double.value]
  gcongr

theorem Cell.magnitude_of (hx : twoPow 52 ≤ x.mantissa) :
    (10 : ℚ) ^ magnitude (Cell.of x).value (Cell.of x).den ≤ x.value ∧
      (2 : ℚ) ^ x.exponent < 10 ^ magnitude (Cell.of x).value (Cell.of x).den := by
  obtain ⟨hmag, hmag'⟩ := magnitude_spec (value_pos hx) (den_of_pos x)
  rw [value_of] at hmag hmag'
  refine ⟨hmag, ?_⟩
  have hplace := place_le_value hx
  have hp : (0 : ℚ) < 2 ^ x.exponent := by positivity
  rw [zpow_add_one₀ (by norm_num)] at hmag'
  linarith

section Short

variable {d : Decimal} (hx : twoPow 52 ≤ x.mantissa) (hc : (Cell.of x).Contains d.value)
  (hdigits : d.digits < 10 ^ 15)

include hx hc hdigits

/-- The last place of the double is small against that of a short decimal in its cell, and the
double is not much greater than the decimal. -/
theorem place_lt_of_contains : (2 : ℚ) ^ x.exponent < 10 ^ d.exponent ∧
    x.value < 10 ^ 16 * 10 ^ d.exponent := by
  have hp : (0 : ℚ) < 2 ^ x.exponent := by positivity
  have hpd : (0 : ℚ) < 10 ^ d.exponent := by positivity
  have hbig := Cell.place_le_value hx
  have hnear : x.value ≤ d.value + 2 ^ x.exponent := by
    linarith [Cell.width_le hx, (Cell.contains_value hx).2.1, hc.1]
  have hupper : d.value < 10 ^ 15 * 10 ^ d.exponent := by
    have hdigits' : (d.digits : ℚ) < 10 ^ 15 := by exact_mod_cast hdigits
    rw [value]
    gcongr
  constructor <;> linarith

theorem magnitude_lt_of_contains :
    magnitude (Cell.of x).value (Cell.of x).den < 16 + d.exponent := by
  obtain ⟨-, hupper⟩ := place_lt_of_contains hx hc hdigits
  rw [← zpow_lt_zpow_iff_right₀ (by norm_num : (1 : ℚ) < 10)]
  calc (10 : ℚ) ^ magnitude (Cell.of x).value (Cell.of x).den
      ≤ x.value := (Cell.magnitude_of hx).1
    _ < 10 ^ 16 * 10 ^ d.exponent := hupper
    _ = 10 ^ (16 + d.exponent) := by
      rw [zpow_add₀ (by norm_num)]
      norm_num

/-- A decimal of at most fifteen digits without factors of ten is what is written for the double
whose cell it lies in. -/
theorem shortest_eq (hten : d.digits % 10 ≠ 0) : shortest x = d := by
  have hself := Cell.contains_value hx
  have hreach := magnitude_lt_of_contains hx hc hdigits
  have hw : ((Cell.of x).high : ℚ) / (Cell.of x).den - (Cell.of x).low / (Cell.of x).den <
      10 ^ min d.exponent (magnitude (Cell.of x).value (Cell.of x).den) := by
    rcases min_choice d.exponent (magnitude (Cell.of x).value (Cell.of x).den) with h | h <;> rw [h]
    · exact (Cell.width_le hx).trans_lt (place_lt_of_contains hx hc hdigits).1
    · exact (Cell.width_le hx).trans_lt (Cell.magnitude_of hx).2
  rw [← Cell.value_of] at hself
  obtain ⟨w, hfound, hvalue⟩ := exists_of_findSome? (Cell.den_of_pos x) hself hc hw
    (min_le_left _ _) (min_le_right _ _) (by omega)
  have hw0 : w.digits ≠ 0 := by
    intro h0
    have hzero : d.value = 0 := by rw [← hvalue, value, h0, Nat.cast_zero, zero_mul]
    have hpos : 0 < d.digits := Nat.pos_of_ne_zero fun h => hten (by rw [h])
    have : (0 : ℚ) < d.value := by
      rw [value]
      positivity
    exact this.ne' hzero
  rw [shortest]
  simp only [hfound, Option.getD_some]
  exact eq_of_value_eq (stripZeros_mod_ten hw0) hten ((value_stripZeros w).trans hvalue)

end Short

end Decimal

end SearchFilter
