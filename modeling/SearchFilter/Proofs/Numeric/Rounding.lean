import Mathlib.Algebra.Order.Field.Power
import Mathlib.Data.Rat.Floor
import Mathlib.Tactic.FieldSimp
import Mathlib.Tactic.Linarith
import Mathlib.Tactic.NormNum
import Mathlib.Tactic.Positivity
import Mathlib.Tactic.Ring
import SearchFilter.Numeric.Decimal

/-!
# Rounding quotients to doubles

Quotients of natural numbers are told as rational numbers here. A quotient that is neither too small
nor too large is scaled to have 53 binary digits before the point, and what is behind it is rounded
off. Main statements: the quotient lies in the cell of the double that it is rounded to, and so does
a decimal of at most fifteen digits, which is read in two steps.
-/

namespace SearchFilter

open Numeric (twoPow tenPow)

@[simp, norm_cast] theorem Numeric.cast_twoPow (k : Nat) : ((twoPow k : Nat) : ℚ) = 2 ^ k := by
  rw [twoPow, Nat.pow_eq]
  push_cast
  rfl

@[simp, norm_cast] theorem Numeric.cast_tenPow (k : Nat) : ((tenPow k : Nat) : ℚ) = 10 ^ k := by
  rw [tenPow, Nat.pow_eq]
  push_cast
  rfl

theorem zpow_eq_div {b : ℚ} (hb : b ≠ 0) (e : ℤ) : b ^ e = b ^ e.toNat / b ^ (-e).toNat := by
  rw [← zpow_natCast, ← zpow_natCast, ← zpow_sub₀ hb]
  congr 1
  omega

theorem natCast_le_div_iff {num den k : Nat} (hd : 0 < den) :
    (k : ℚ) ≤ (num : ℚ) / den ↔ k ≤ num / den := by
  rw [le_div_iff₀ (by positivity), Nat.le_div_iff_mul_le hd]
  exact_mod_cast Iff.rfl

theorem div_lt_natCast_iff {num den k : Nat} (hd : 0 < den) :
    (num : ℚ) / den < k ↔ num / den < k := by
  rw [← not_le, natCast_le_div_iff hd, Nat.not_le]

theorem scaled_spec {base : ℚ} (hbase : base ≠ 0) {pow : Nat → Nat}
    (hpow : ∀ k, (pow k : ℚ) = base ^ k) {num den a b : Nat} {e : ℤ} (hd : 0 < den)
    (h : (if 0 ≤ e then (num, den * pow e.toNat) else (num * pow (-e).toNat, den)) = (a, b)) :
    0 < b ∧ (a : ℚ) / b = (num : ℚ) / den / base ^ e := by
  have hd' : (den : ℚ) ≠ 0 := by positivity
  have hpos : ∀ k, pow k ≠ 0 := by
    intro k hk
    have := hpow k
    rw [hk, Nat.cast_zero] at this
    exact pow_ne_zero k hbase this.symm
  rw [zpow_eq_div hbase]
  split_ifs at h with he <;> obtain ⟨rfl, rfl⟩ := Prod.mk.inj h
  · refine ⟨Nat.mul_pos hd (Nat.pos_of_ne_zero (hpos _)), ?_⟩
    rw [Int.toNat_of_nonpos (by omega : -e ≤ 0), Nat.cast_mul, hpow, pow_zero, div_one, div_div]
  · refine ⟨hd, ?_⟩
    rw [Int.toNat_of_nonpos (by omega : e ≤ 0), Nat.cast_mul, hpow, pow_zero]
    field_simp

namespace Double

/-- The number that a double stands for. -/
def value (x : Double) : ℚ := x.mantissa * 2 ^ x.exponent

theorem den_pos (x : Double) : 0 < x.den := Numeric.twoPow_pos _

theorem num_div_den (x : Double) : (x.num : ℚ) / x.den = x.value := by
  rw [num, den, value, zpow_eq_div two_ne_zero, Nat.cast_mul, mul_div_assoc]
  simp

theorem shift_spec {num den a b : Nat} {e : ℤ} (hd : 0 < den) (h : shift num den e = (a, b)) :
    0 < b ∧ (a : ℚ) / b = (num : ℚ) / den / 2 ^ e :=
  scaled_spec two_ne_zero Numeric.cast_twoPow hd h

/-- Rounding takes off at most a half, and from an odd number less. -/
theorem nearestEven_spec (num : Nat) {den : Nat} (hd : 0 < den) :
    2 * nearestEven num den * den ≤ 2 * num + den ∧ 2 * num ≤ (2 * nearestEven num den + 1) * den ∧
      (nearestEven num den % 2 = 1 → 2 * nearestEven num den * den < 2 * num + den ∧
        2 * num < (2 * nearestEven num den + 1) * den) := by
  have hnum := Nat.div_add_mod num den
  have hmod := Nat.mod_lt num hd
  rw [nearestEven]
  generalize num / den = q at *
  generalize num % den = m at *
  subst hnum
  split_ifs with h1 h2
  · refine ⟨?_, ?_, fun _ => ⟨?_, ?_⟩⟩ <;> nlinarith
  · refine ⟨?_, ?_, fun _ => ⟨?_, ?_⟩⟩ <;> nlinarith
  · have heq : 2 * m = den := by omega
    rcases Nat.mod_two_eq_zero_or_one q with hq | hq
    · rw [hq, Nat.add_zero]
      refine ⟨by nlinarith, by nlinarith, fun h => by omega⟩
    · rw [hq]
      refine ⟨by nlinarith, by nlinarith, fun h => by omega⟩

theorem nearestEven_near (num : Nat) {den : Nat} (hd : 0 < den) :
    (nearestEven num den : ℚ) - 1 / 2 ≤ num / den ∧ (num : ℚ) / den ≤ nearestEven num den + 1 / 2 ∧
      (nearestEven num den % 2 = 1 → (nearestEven num den : ℚ) - 1 / 2 < num / den ∧
        (num : ℚ) / den < nearestEven num den + 1 / 2) := by
  obtain ⟨hlow, hhigh, hodd⟩ := nearestEven_spec num hd
  generalize nearestEven num den = m at *
  have hd' : (0 : ℚ) < den := by positivity
  have hlow' : 2 * (m : ℚ) * den ≤ 2 * num + den := by exact_mod_cast hlow
  have hhigh' : 2 * (num : ℚ) ≤ (2 * m + 1) * den := by exact_mod_cast hhigh
  refine ⟨?_, ?_, fun hm => ?_⟩
  · rw [le_div_iff₀ hd']
    linarith
  · rw [div_le_iff₀ hd']
    linarith
  · obtain ⟨h₁, h₂⟩ := hodd hm
    have h₁' : 2 * (m : ℚ) * den < 2 * num + den := by exact_mod_cast h₁
    have h₂' : 2 * (num : ℚ) < (2 * m + 1) * den := by exact_mod_cast h₂
    rw [lt_div_iff₀ hd', div_lt_iff₀ hd']
    constructor <;> linarith

/-- A scale at which a quotient has 53 binary digits before the point. -/
def Binade (r : ℚ) (e : ℤ) : Prop := 2 ^ 52 ≤ r / 2 ^ e ∧ r / 2 ^ e < 2 ^ 53

theorem quotient_bounds {num den : Nat} (hn : 0 < num) (hd : 0 < den) :
    (2 : ℚ) ^ ((num.log2 : ℤ) - den.log2 - 1) < (num : ℚ) / den ∧
      (num : ℚ) / den < 2 ^ ((num.log2 : ℤ) - den.log2 + 1) := by
  have hn₁ : (2 : ℚ) ^ num.log2 ≤ num := by exact_mod_cast Nat.log2_self_le hn.ne'
  have hn₂ : (num : ℚ) < 2 ^ (num.log2 + 1) := by exact_mod_cast Nat.lt_log2_self
  have hd₁ : (2 : ℚ) ^ den.log2 ≤ den := by exact_mod_cast Nat.log2_self_le hd.ne'
  have hd₂ : (den : ℚ) < 2 ^ (den.log2 + 1) := by exact_mod_cast Nat.lt_log2_self
  have hd' : (0 : ℚ) < den := by positivity
  constructor
  · rw [sub_sub, zpow_sub₀ two_ne_zero, zpow_natCast, div_lt_div_iff₀ (by positivity) hd']
    have hp : (2 : ℚ) ^ ((den.log2 : ℤ) + 1) = 2 ^ (den.log2 + 1) := by exact_mod_cast rfl
    rw [hp]
    calc (2 : ℚ) ^ num.log2 * den < 2 ^ num.log2 * 2 ^ (den.log2 + 1) := by gcongr
      _ ≤ num * 2 ^ (den.log2 + 1) := by gcongr
  · rw [sub_add_eq_add_sub, zpow_sub₀ two_ne_zero, zpow_natCast,
      div_lt_div_iff₀ hd' (by positivity)]
    have hp : (2 : ℚ) ^ ((num.log2 : ℤ) + 1) = 2 ^ (num.log2 + 1) := by exact_mod_cast rfl
    rw [hp]
    calc (num : ℚ) * 2 ^ den.log2 < 2 ^ (num.log2 + 1) * 2 ^ den.log2 := by gcongr
      _ ≤ 2 ^ (num.log2 + 1) * den := by gcongr

theorem binade_of_guess {num den a b : Nat} (hn : 0 < num) (hd : 0 < den) {guess : ℤ}
    (hg : guess = (num.log2 : ℤ) - den.log2 - 53) (hs : shift num den guess = (a, b)) :
    Binade ((num : ℚ) / den) (if a / b < twoPow 53 then guess else guess + 1) := by
  obtain ⟨hb, hr⟩ := shift_spec hd hs
  obtain ⟨hlow, hhigh⟩ := quotient_bounds hn hd
  have hg₁ : (num.log2 : ℤ) - den.log2 - 1 = 52 + guess := by omega
  have hg₂ : (num.log2 : ℤ) - den.log2 + 1 = 54 + guess := by omega
  have hp : (0 : ℚ) < 2 ^ guess := by positivity
  rw [hg₁, zpow_add₀ two_ne_zero] at hlow
  rw [hg₂, zpow_add₀ two_ne_zero] at hhigh
  have hlow' : (2 : ℚ) ^ 52 < num / den / 2 ^ guess := (lt_div_iff₀ hp).mpr hlow
  have hhigh' : (num : ℚ) / den / 2 ^ guess < 2 ^ 54 := (div_lt_iff₀ hp).mpr hhigh
  have hiff : a / b < twoPow 53 ↔ (num : ℚ) / den / 2 ^ guess < 2 ^ 53 := by
    rw [← div_lt_natCast_iff hb, hr, Numeric.cast_twoPow]
  split_ifs with h
  · exact ⟨hlow'.le, hiff.mp h⟩
  · have h' := not_lt.mp (hiff.not.mp h)
    have hhalf : (num : ℚ) / den / 2 ^ (guess + 1) = num / den / 2 ^ guess / 2 := by
      rw [zpow_add_one₀ two_ne_zero, div_mul_eq_div_div]
    rw [Binade, hhalf]
    constructor <;> linarith

theorem Binade.exponent_ge {r : ℚ} {e : ℤ} (h : Binade r e) (hr : 2 ^ (-1022 : ℤ) ≤ r) :
    -1074 ≤ e := by
  have hp : (0 : ℚ) < 2 ^ e := by positivity
  have hlt : (2 : ℚ) ^ (-1022 : ℤ) < 2 ^ (53 + e) := by
    rw [zpow_add₀ two_ne_zero]
    exact lt_of_le_of_lt hr ((div_lt_iff₀ hp).mp h.2)
  have := (zpow_lt_zpow_iff_right₀ (by norm_num : (1 : ℚ) < 2)).mp hlt
  omega

/-- A quotient is rounded at a scale of 53 binary digits, and a carry moves the scale by one. -/
theorem exists_of_ofQuotient? {num den : Nat} {x : Double} (hn : 0 < num) (hd : 0 < den)
    (hr : 2 ^ (-1022 : ℤ) ≤ (num : ℚ) / den) (h : ofQuotient? num den = some x) :
    ∃ (e : ℤ) (a b : Nat), Binade ((num : ℚ) / den) e ∧ 0 < b ∧
      (a : ℚ) / b = (num : ℚ) / den / 2 ^ e ∧
      x = if nearestEven a b = twoPow 53 then ⟨twoPow 52, e + 1⟩ else ⟨nearestEven a b, e⟩ := by
  rw [ofQuotient?, if_neg hn.ne'] at h
  obtain ⟨a, b, hs⟩ : ∃ a b, shift num den ((num.log2 : ℤ) - den.log2 - 53) = (a, b) :=
    ⟨_, _, rfl⟩
  have hbinade := binade_of_guess hn hd rfl hs
  dsimp only at h
  rw [hs] at h
  dsimp only at h
  rw [max_eq_right (hbinade.exponent_ge hr)] at h
  generalize (if a / b < twoPow 53 then (num.log2 : ℤ) - den.log2 - 53
    else (num.log2 : ℤ) - den.log2 - 53 + 1) = e at h hbinade
  obtain ⟨c, d, hs'⟩ : ∃ c d, shift num den e = (c, d) := ⟨_, _, rfl⟩
  obtain ⟨hd', hr'⟩ := shift_spec hd hs'
  rw [hs'] at h
  refine ⟨e, c, d, hbinade, hd', hr', ?_⟩
  by_cases hm : nearestEven c d = twoPow 53
  · simp only [hm, if_true] at h ⊢
    split_ifs at h
    cases h
    rfl
  · simp only [hm, if_false] at h ⊢
    split_ifs at h
    cases h
    rfl

end Double

namespace Decimal.Cell

/-- Whether a number is one of those that round to the double of the cell. -/
def Contains (c : Cell) (r : ℚ) : Prop :=
  (c.low : ℚ) / c.den ≤ r ∧ r ≤ (c.high : ℚ) / c.den ∧
    (c.closed = false → (c.low : ℚ) / c.den < r ∧ r < (c.high : ℚ) / c.den)

theorem den_of_pos (x : Double) : 0 < (Cell.of x).den := Numeric.twoPow_pos _

/-- How much closer the next double lies below a power of two, in quarters of a place. -/
def gap (x : Double) : Nat := if x.mantissa = twoPow 52 ∧ -1074 < x.exponent then 1 else 2

theorem scaled_eq (k : Nat) (e : ℤ) :
    ((k * twoPow e.toNat : Nat) : ℚ) / twoPow (-e).toNat = k * 2 ^ e := by
  rw [zpow_eq_div two_ne_zero]
  push_cast
  rw [mul_div_assoc]

variable (x : Double)

theorem low_of : ((Cell.of x).low : ℚ) / (Cell.of x).den =
    ((4 * x.mantissa - gap x : Nat) : ℚ) * 2 ^ (x.exponent - 2) := scaled_eq _ _

theorem high_of : ((Cell.of x).high : ℚ) / (Cell.of x).den =
    ((4 * x.mantissa + 2 : Nat) : ℚ) * 2 ^ (x.exponent - 2) := scaled_eq _ _

theorem value_of : ((Cell.of x).value : ℚ) / (Cell.of x).den = x.value := by
  rw [Double.value]
  refine (scaled_eq _ _).trans ?_
  rw [zpow_sub₀ two_ne_zero]
  push_cast
  ring

theorem gap_le : gap x ≤ 2 := by
  rw [gap]
  split_ifs <;> decide

theorem one_le_gap : 1 ≤ gap x := by
  rw [gap]
  split_ifs <;> decide

variable {x}

theorem gap_of_odd (h : x.mantissa % 2 = 1) : gap x = 2 := by
  have hne : x.mantissa ≠ twoPow 52 := by
    intro he
    rw [he] at h
    cases h
  rw [gap, if_neg fun hg => hne hg.1]

theorem contains_of {quarters : ℚ} (hm : 0 < x.mantissa)
    (hlow : (4 * x.mantissa - gap x : ℚ) ≤ quarters) (hhigh : quarters ≤ 4 * x.mantissa + 2)
    (hodd : x.mantissa % 2 = 1 →
      (4 * x.mantissa - 2 : ℚ) < quarters ∧ quarters < 4 * x.mantissa + 2) :
    (Cell.of x).Contains (quarters * 2 ^ (x.exponent - 2)) := by
  have hu : (0 : ℚ) < 2 ^ (x.exponent - 2) := by positivity
  have hgap : gap x ≤ 4 * x.mantissa := (gap_le x).trans (by omega)
  rw [Contains, low_of, high_of, Nat.cast_sub hgap]
  push_cast
  refine ⟨mul_le_mul_of_nonneg_right hlow hu.le, mul_le_mul_of_nonneg_right hhigh hu.le,
    fun hc => ?_⟩
  have hm2 : x.mantissa % 2 = 1 := by
    have : ¬ x.mantissa % 2 = 0 := of_decide_eq_false hc
    omega
  obtain ⟨h₁, h₂⟩ := hodd hm2
  rw [gap_of_odd hm2]
  exact ⟨mul_lt_mul_of_pos_right h₁ hu, mul_lt_mul_of_pos_right h₂ hu⟩

end Decimal.Cell

namespace Double

open Decimal

theorem eq_quarters (r : ℚ) (e : ℤ) : r = 4 * (r / 2 ^ e) * 2 ^ (e - 2) := by
  rw [zpow_sub₀ two_ne_zero]
  field_simp
  norm_num

theorem contains_of_near {r : ℚ} {e : ℤ} {m : Nat} (hm : twoPow 52 ≤ m) (hlow : 2 ^ 52 ≤ r / 2 ^ e)
    (hdown : (m : ℚ) - 1 / 2 ≤ r / 2 ^ e) (hup : r / 2 ^ e ≤ m + 1 / 2)
    (hodd : m % 2 = 1 → (m : ℚ) - 1 / 2 < r / 2 ^ e ∧ r / 2 ^ e < m + 1 / 2) :
    (Cell.of ⟨m, e⟩).Contains r := by
  rw [eq_quarters r e]
  refine Cell.contains_of ((Numeric.twoPow_pos 52).trans_le hm) ?_ ?_ fun h => ?_
  · rw [Cell.gap]
    dsimp only
    split_ifs with hg
    · have hm52 : (m : ℚ) = 2 ^ 52 := by rw [hg.1, Numeric.cast_twoPow]
      push_cast
      linarith
    · push_cast
      linarith
  · dsimp only
    linarith
  · obtain ⟨h₁, h₂⟩ := hodd h
    dsimp only
    constructor <;> linarith

/-- What is rounded to a power of two from below lies in its cell, one scale higher. -/
theorem contains_of_carry {r : ℚ} {e : ℤ} (hhigh : r / 2 ^ e < 2 ^ 53)
    (hdown : (2 : ℚ) ^ 53 - 1 / 2 ≤ r / 2 ^ e) : (Cell.of ⟨twoPow 52, e + 1⟩).Contains r := by
  have hhalf : r / 2 ^ (e + 1) = r / 2 ^ e / 2 := by
    rw [zpow_add_one₀ two_ne_zero, div_mul_eq_div_div]
  have hone : (1 : ℚ) ≤ Cell.gap ⟨twoPow 52, e + 1⟩ := by
    exact_mod_cast Cell.one_le_gap ⟨twoPow 52, e + 1⟩
  have heven : twoPow 52 % 2 = 0 := by decide
  rw [eq_quarters r (e + 1), hhalf]
  refine Cell.contains_of (Numeric.twoPow_pos 52) ?_ ?_ fun h => ?_
  · dsimp only
    rw [Numeric.cast_twoPow]
    linarith
  · dsimp only
    rw [Numeric.cast_twoPow]
    linarith
  · exact absurd (heven.symm.trans h) Nat.zero_ne_one

/-- A quotient of usual size lies in the cell of the double that it is rounded to, and the double
has all its digits. -/
theorem contains_of_ofQuotient? {num den : Nat} {x : Double} (hn : 0 < num) (hd : 0 < den)
    (hr : 2 ^ (-1022 : ℤ) ≤ (num : ℚ) / den) (h : ofQuotient? num den = some x) :
    twoPow 52 ≤ x.mantissa ∧ (Cell.of x).Contains ((num : ℚ) / den) := by
  obtain ⟨e, a, b, ⟨hlow, hhigh⟩, hb, hab, rfl⟩ := exists_of_ofQuotient? hn hd hr h
  obtain ⟨hdown, hup, hodd⟩ := nearestEven_near a hb
  rw [hab] at hdown hup hodd
  generalize nearestEven a b = m at *
  have hm : twoPow 52 ≤ m := by
    have : (twoPow 52 : ℚ) < m + 1 := by
      rw [Numeric.cast_twoPow]
      linarith
    exact Nat.lt_add_one_iff.mp (by exact_mod_cast this)
  split_ifs with hcarry
  · rw [hcarry, Numeric.cast_twoPow] at hdown
    exact ⟨le_refl _, contains_of_carry hhigh hdown⟩
  · exact ⟨hm, contains_of_near hm hlow hdown hup hodd⟩

theorem nearestEven_of_natCast {num den k : Nat} (hd : 0 < den) (h : (num : ℚ) / den = k) :
    nearestEven num den = k := by
  obtain ⟨hdown, hup, -⟩ := nearestEven_near num hd
  rw [h] at hdown hup
  have h₁ : (nearestEven num den : ℚ) < (k + 1 : Nat) := by
    push_cast
    linarith
  have h₂ : (k : ℚ) < (nearestEven num den + 1 : Nat) := by
    push_cast
    linarith
  exact Nat.le_antisymm (Nat.lt_add_one_iff.mp (Nat.cast_lt.mp h₁))
    (Nat.lt_add_one_iff.mp (Nat.cast_lt.mp h₂))

theorem value_of_ofQuotient? {n : Nat} {x : Double} (hn : 0 < n) (hlt : n < 2 ^ 53)
    (h : ofQuotient? n 1 = some x) : x.value = n := by
  have hone : (1 : ℚ) ≤ n := by exact_mod_cast hn
  have hsmall : (2 : ℚ) ^ (-1022 : ℤ) ≤ (n : ℚ) / (1 : Nat) := by
    rw [Nat.cast_one, div_one]
    exact (zpow_le_one_of_nonpos₀ (by norm_num) (by norm_num)).trans hone
  obtain ⟨e, a, b, ⟨hlow, -⟩, hb, hab, rfl⟩ := exists_of_ofQuotient? hn Nat.one_pos hsmall h
  rw [Nat.cast_one, div_one] at hlow hab
  have hp : (0 : ℚ) < 2 ^ e := by positivity
  have he : e ≤ 0 := by
    have hlt' : (n : ℚ) < 2 ^ 53 := by exact_mod_cast hlt
    have hlt'' : (2 : ℚ) ^ (52 + e) < 2 ^ (53 : ℤ) := by
      rw [zpow_add₀ two_ne_zero]
      exact lt_of_le_of_lt ((le_div_iff₀ hp).mp hlow) hlt'
    have := (zpow_lt_zpow_iff_right₀ (by norm_num : (1 : ℚ) < 2)).mp hlt''
    omega
  have hscaled : (a : ℚ) / b = ((n * 2 ^ (-e).toNat : Nat) : ℚ) := by
    rw [hab, zpow_eq_div two_ne_zero, Int.toNat_of_nonpos he]
    push_cast
    rw [pow_zero, one_div, div_inv_eq_mul]
  have hexact := nearestEven_of_natCast hb hscaled
  have hvalue : (nearestEven a b : ℚ) * 2 ^ e = n := by
    rw [hexact, ← hscaled, hab, div_mul_cancel₀ _ hp.ne']
  split_ifs with hcarry
  · rw [← hvalue, hcarry, value]
    dsimp only
    rw [zpow_add_one₀ two_ne_zero, Numeric.cast_twoPow, Numeric.cast_twoPow]
    ring
  · rw [← hvalue, value]

theorem isSome_powerOfTen : ∀ k ≤ 15, (ofQuotient? (tenPow k) 1).isSome := by decide

theorem value_powerOfTen {k : Nat} (h : k ≤ 15) : (powerOfTen k).value = 10 ^ k := by
  obtain ⟨x, hx⟩ := Option.isSome_iff_exists.mp (isSome_powerOfTen k h)
  have hlt : tenPow k < 2 ^ 53 := by
    calc tenPow k ≤ 10 ^ 15 := Nat.pow_le_pow_right (by decide) h
      _ < 2 ^ 53 := by decide
  rw [powerOfTen, hx, Option.getD_some, value_of_ofQuotient? (Numeric.tenPow_pos k) hlt hx,
    Numeric.cast_tenPow]

theorem num_pos {x : Double} (h : 0 < x.value) : 0 < x.num := by
  rw [← num_div_den] at h
  have hd : (0 : ℚ) < x.den := Nat.cast_pos.mpr x.den_pos
  exact Nat.cast_pos.mp ((div_pos_iff_of_pos_right hd).mp h)

theorem contains_of_div? {x y z : Double} (hx : 0 < x.value) (hy : 0 < y.value)
    (hr : 2 ^ (-1022 : ℤ) ≤ x.value / y.value) (h : x.div? y = some z) :
    twoPow 52 ≤ z.mantissa ∧ (Cell.of z).Contains (x.value / y.value) := by
  have hquot : ((x.num * y.den : Nat) : ℚ) / (x.den * y.num : Nat) = x.value / y.value := by
    rw [← num_div_den, ← num_div_den]
    push_cast
    rw [div_div_div_eq]
  rw [← hquot] at hr ⊢
  exact contains_of_ofQuotient? (Nat.mul_pos (num_pos hx) y.den_pos)
    (Nat.mul_pos x.den_pos (num_pos hy)) hr h

/-- A decimal of at most fifteen digits is read in two steps of which only the second one rounds. -/
theorem contains_of_ofScientific? {n k : Nat} {x : Double} (hn : 0 < n) (hlt : n < 10 ^ 15)
    (hk : 0 < k) (hk' : k ≤ 15) (h : ofScientific? n (-k) = some x) :
    twoPow 52 ≤ x.mantissa ∧ (Cell.of x).Contains (n * 10 ^ (-(k : ℤ))) := by
  rw [ofScientific?] at h
  obtain ⟨y, hy, h⟩ := Option.bind_eq_some_iff.mp h
  have hyv := value_of_ofQuotient? hn (hlt.trans (by decide)) hy
  have hzv := value_powerOfTen hk'
  have hnat : (-(k : ℤ)).natAbs = k := by omega
  rw [scale?, hnat, if_pos (by omega), if_neg (by omega)] at h
  have hquot : (n : ℚ) * 10 ^ (-(k : ℤ)) = y.value / (powerOfTen k).value := by
    rw [hyv, hzv, zpow_neg, zpow_natCast, div_eq_mul_inv]
  have hone : (1 : ℚ) ≤ n := by exact_mod_cast hn
  have hsmall : (2 : ℚ) ^ (-1022 : ℤ) ≤ n * 10 ^ (-(k : ℤ)) := by
    calc (2 : ℚ) ^ (-1022 : ℤ) ≤ 2 ^ (-60 : ℤ) := zpow_le_zpow_right₀ (by norm_num) (by norm_num)
      _ ≤ 10 ^ (-15 : ℤ) := by norm_num
      _ ≤ 10 ^ (-(k : ℤ)) := zpow_le_zpow_right₀ (by norm_num) (by omega)
      _ ≤ n * 10 ^ (-(k : ℤ)) := le_mul_of_one_le_left (by positivity) hone
  rw [hquot] at hsmall ⊢
  refine contains_of_div? ?_ ?_ hsmall h
  · rw [hyv]
    exact Nat.cast_pos.mpr hn
  · rw [hzv]
    positivity

theorem ofScientific?_zero {k : Nat} (hk : 0 < k) (hk' : k ≤ 15) :
    ofScientific? 0 (-k) = some zero := by
  have hnat : (-(k : ℤ)).natAbs = k := by omega
  have hzero : ofQuotient? 0 1 = some zero := rfl
  rw [ofScientific?, hzero, Option.bind_some, scale?, hnat, if_pos (by omega), if_neg (by omega),
    div?]
  have hnum : zero.num * (powerOfTen k).den = 0 := by
    rw [num, zero, Nat.zero_mul, Nat.zero_mul]
  rw [hnum]
  rfl

end Double

end SearchFilter
