import Mathlib.Algebra.Ring.Nat
import SearchFilter.Numeric.Decimal

/-!
# Digits and what they spell

Digits are read from the left, ten times what stands before and the next one. Main statement: digits
that do not start with a zero are the decimal digits of the number that they spell.
-/

namespace SearchFilter.Decimal

/-- What digits spell behind those of `value`. -/
def ofDigits (value : Nat) (ds : List Nat) : Nat := ds.foldl (fun v d => v * 10 + d) value

@[simp] theorem ofDigits_nil (value : Nat) : ofDigits value [] = value := rfl

@[simp] theorem ofDigits_cons (value d : Nat) (ds : List Nat) :
    ofDigits value (d :: ds) = ofDigits (value * 10 + d) ds := rfl

theorem ofDigits_append (value : Nat) (ds es : List Nat) :
    ofDigits value (ds ++ es) = ofDigits (ofDigits value ds) es := List.foldl_append

theorem le_ofDigits (value : Nat) (ds : List Nat) : value ≤ ofDigits value ds := by
  induction ds generalizing value with
  | nil => exact Nat.le_refl value
  | cons d ds ih => exact Nat.le_trans (by omega) (ih (value * 10 + d))

theorem ofDigits_lt (value : Nat) {ds : List Nat} (hd : ∀ d ∈ ds, d < 10) :
    ofDigits value ds < (value + 1) * 10 ^ ds.length := by
  induction ds generalizing value with
  | nil => simp
  | cons d ds ih =>
    obtain ⟨hd, hds⟩ := List.forall_mem_cons.mp hd
    calc ofDigits (value * 10 + d) ds
        < (value * 10 + d + 1) * 10 ^ ds.length := ih _ hds
      _ ≤ (value + 1) * 10 * 10 ^ ds.length := Nat.mul_le_mul_right _ (by omega)
      _ = (value + 1) * 10 ^ (ds.length + 1) := by rw [Nat.pow_succ, Nat.mul_assoc, Nat.mul_comm 10]

theorem ofDigits_zeros_append (k : Nat) (ds : List Nat) :
    ofDigits 0 (List.replicate k 0 ++ ds) = ofDigits 0 ds := by
  induction k with
  | zero => rfl
  | succ k ih => rw [List.replicate_succ, List.cons_append, ofDigits_cons, ih]

theorem ofDigits_append_zeros (value : Nat) (ds : List Nat) (k : Nat) :
    ofDigits value (ds ++ List.replicate k 0) = ofDigits value ds * 10 ^ k := by
  induction k with
  | zero => rw [List.replicate_zero, List.append_nil, Nat.pow_zero, Nat.mul_one]
  | succ k ih =>
    rw [List.replicate_succ', ← List.append_assoc, ofDigits_append, ih, ofDigits_cons, ofDigits_nil,
      Nat.add_zero, Nat.pow_succ, Nat.mul_assoc]

theorem ofDigits_concat_mod (value d : Nat) (ds : List Nat) :
    ofDigits value (ds ++ [d]) % 10 = d % 10 := by
  rw [ofDigits_append, ofDigits_cons, ofDigits_nil]
  omega

theorem digitsOf_of_lt {d : Nat} (h : d < 10) : digitsOf d = [Nat.digitChar d] :=
  Nat.toDigits_of_lt_base h

theorem digitsOf_append {value d : Nat} (hv : 0 < value) (hd : d < 10) :
    digitsOf value ++ [Nat.digitChar d] = digitsOf (value * 10 + d) := by
  rw [← digitsOf_of_lt hd, Nat.mul_comm]
  exact Nat.toDigits_append_toDigits (by decide) hv hd

theorem digitsOf_ofDigits_from {value : Nat} {ds : List Nat} (hv : 0 < value)
    (hd : ∀ d ∈ ds, d < 10) :
    digitsOf (ofDigits value ds) = digitsOf value ++ ds.map Nat.digitChar := by
  induction ds generalizing value with
  | nil => simp
  | cons d ds ih =>
    obtain ⟨hd, hds⟩ := List.forall_mem_cons.mp hd
    rw [ofDigits_cons, ih (by omega) hds, ← digitsOf_append hv hd, List.append_assoc, List.map_cons]
    rfl

/-- Digits that do not start with a zero are those of the number that they spell. -/
theorem digitsOf_ofDigits {d : Nat} {ds : List Nat} (hd : ∀ e ∈ d :: ds, e < 10) (h0 : d ≠ 0) :
    digitsOf (ofDigits 0 (d :: ds)) = (d :: ds).map Nat.digitChar := by
  obtain ⟨hd, hds⟩ := List.forall_mem_cons.mp hd
  rw [ofDigits_cons, Nat.zero_mul, Nat.zero_add, digitsOf_ofDigits_from (Nat.pos_of_ne_zero h0) hds,
    digitsOf_of_lt hd]
  rfl

end SearchFilter.Decimal
