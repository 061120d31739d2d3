/-!
# Powers of two and ten

The scales of binary and of decimal numbers, as natural numbers.
-/

namespace SearchFilter.Numeric

def twoPow (k : Nat) : Nat := Nat.pow 2 k

def tenPow (k : Nat) : Nat := Nat.pow 10 k

theorem twoPow_pos (k : Nat) : 0 < twoPow k := Nat.pow_pos (by decide)

theorem tenPow_pos (k : Nat) : 0 < tenPow k := Nat.pow_pos (by decide)

end SearchFilter.Numeric
