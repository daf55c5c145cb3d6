/-! # Scales

Doubles are scaled by powers of two, decimals by powers of ten. -/

namespace PrefixCalc
set_option autoImplicit false

def twoPow (k : Nat) : Nat := Nat.pow 2 k

def tenPow (k : Nat) : Nat := Nat.pow 10 k

theorem twoPow_pos (k : Nat) : 0 < twoPow k := Nat.two_pow_pos k

theorem tenPow_pos (k : Nat) : 0 < tenPow k := Nat.pow_pos (by decide)

theorem twoPow_add (j k : Nat) : twoPow (j + k) = twoPow j * twoPow k := Nat.pow_add 2 j k

theorem twoPow_le_twoPow {j k : Nat} (h : j ≤ k) : twoPow j ≤ twoPow k :=
  Nat.pow_le_pow_right (by decide) h

theorem twoPow_lt_twoPow {j k : Nat} (h : j < k) : twoPow j < twoPow k :=
  Nat.pow_lt_pow_right Nat.one_lt_two h

theorem twoPow_dvd_twoPow {j k : Nat} (h : j ≤ k) : twoPow j ∣ twoPow k := Nat.pow_dvd_pow 2 h

@[simp] theorem log2_twoPow (k : Nat) : (twoPow k).log2 = k := Nat.log2_two_pow

theorem lt_twoPow_log2 (n : Nat) : n < twoPow (n.log2 + 1) := Nat.lt_log2_self

theorem log2_lt {n k : Nat} (h : n ≠ 0) : n.log2 < k ↔ n < twoPow k := Nat.log2_lt h

end PrefixCalc
