import Mathlib.Algebra.Order.Field.Basic
import Mathlib.Data.Rat.Cast.Order
import Mathlib.Tactic.FieldSimp
import Mathlib.Tactic.Positivity
import Mathlib.Tactic.Ring
import PrefixCalc.Number.Decimal
import PrefixCalc.Proofs.Number.Rounding

/-! # Reading decimals

The double that a decimal reads as depends on the value of the decimal only. A decimal with
the value of a double reads as this double, and so does the shortest decimal of a double. -/

namespace PrefixCalc
set_option autoImplicit false

namespace Decimal

/-- The number that the decimal stands for. -/
def value (d : Decimal) : ℚ := d.digits * (10 : ℚ) ^ d.exponent

theorem ratio_pos (d : Decimal) : 0 < d.ratio.2 := by
  unfold ratio
  split
  · exact Nat.one_pos
  · exact tenPow_pos _

theorem cast_tenPow (k : Nat) : ((tenPow k : Nat) : ℚ) = (10 : ℚ) ^ (k : Int) := by
  rw [zpow_natCast]
  exact Nat.cast_pow 10 k

/-- The quotient is the value in units. -/
theorem ratio_eq (d : Decimal) : (d.ratio.1 : ℚ) = d.value * oneUnits * d.ratio.2 := by
  unfold ratio value
  split
  · next h =>
    rw [Nat.cast_mul, Nat.cast_mul, cast_tenPow, Int.toNat_of_nonneg h, Nat.cast_one, mul_one]
  · next h =>
    obtain ⟨k, hk⟩ : ∃ k : Nat, d.exponent = -(k : Int) := ⟨d.exponent.natAbs, by omega⟩
    rw [Nat.cast_mul, cast_tenPow, hk, Int.natAbs_neg, Int.natAbs_natCast, zpow_neg]
    generalize (oneUnits : ℚ) = u
    field_simp

/-! ## The two shortcuts -/

theorem twoPow_le_tenPow : twoPow 1024 ≤ tenPow 310 := by decide +kernel

theorem overflowUnits_eq : overflowUnits = twoPow 1024 * oneUnits := by
  unfold overflowUnits oneUnits
  rw [Nat.add_comm, twoPow_add]

theorem twoPow_three_mul_le (k : Nat) : twoPow (3 * k) ≤ tenPow k := by
  have h8 : twoPow (3 * k) = (2 ^ 3) ^ k := Nat.pow_mul 2 3 k
  rw [h8]
  exact Nat.pow_le_pow_left (by decide) k

theorem tenPow_le_tenPow {j k : Nat} (h : j ≤ k) : tenPow j ≤ tenPow k :=
  Nat.pow_le_pow_right (by decide) h

theorem overflowUnits_le_of_isHuge {d : Decimal} (h0 : d.digits ≠ 0) (h : d.isHuge = true) :
    overflowUnits ≤ roundUnits d.ratio.1 d.ratio.2 := by
  have hexp : 310 ≤ d.exponent := of_decide_eq_true h
  have hratio : d.ratio = (d.digits * tenPow d.exponent.toNat * oneUnits, 1) :=
    if_pos (by omega)
  have hten : tenPow 310 ≤ tenPow d.exponent.toNat := tenPow_le_tenPow (by omega)
  rw [hratio]
  apply twoPow_le_roundUnits
  rw [Nat.div_one]
  calc overflowUnits = twoPow 1024 * oneUnits := overflowUnits_eq
    _ ≤ tenPow d.exponent.toNat * oneUnits :=
        Nat.mul_le_mul_right _ (Nat.le_trans twoPow_le_tenPow hten)
    _ ≤ d.digits * tenPow d.exponent.toNat * oneUnits :=
        Nat.mul_le_mul_right _ (Nat.le_mul_of_pos_left _ (Nat.pos_of_ne_zero h0))

theorem roundUnits_of_isTiny {d : Decimal} (h : d.isTiny = true) :
    roundUnits d.ratio.1 d.ratio.2 = 0 := by
  obtain ⟨hneg, hlog⟩ := Bool.and_eq_true_iff.1 h
  have hexp : ¬ 0 ≤ d.exponent := Int.not_le.2 (of_decide_eq_true hneg)
  have hlog : d.digits.log2 + 1076 < 3 * d.exponent.natAbs := of_decide_eq_true hlog
  have hratio : d.ratio = (d.digits * oneUnits, tenPow d.exponent.natAbs) := if_neg hexp
  rw [hratio]
  apply roundUnits_eq_zero
  calc 2 * (d.digits * oneUnits) < 2 * (twoPow (d.digits.log2 + 1) * oneUnits) :=
        Nat.mul_lt_mul_of_pos_left
          (Nat.mul_lt_mul_of_pos_right (lt_twoPow_log2 _) oneUnits_pos) (by decide)
    _ = twoPow (1 + (d.digits.log2 + 1 + oneBits)) := by
        rw [twoPow_add 1, twoPow_add _ oneBits]
        rfl
    _ ≤ twoPow (3 * d.exponent.natAbs) := by
        apply twoPow_le_twoPow
        have : oneBits = 1074 := rfl
        omega
    _ ≤ tenPow d.exponent.natAbs := twoPow_three_mul_le _

/-- The shortcuts agree with the rounding. -/
theorem toBinary64_eq_ofRatio (negative : Bool) (d : Decimal) :
    d.toBinary64 negative = .ofRatio negative d.ratio.1 d.ratio.2 := by
  unfold toBinary64
  split
  · next h0 =>
    -- no digits: the quotient is zero
    symm
    apply Binary64.ofRatio_of_units
    apply roundUnits_eq_zero
    have hnum : d.ratio.1 = 0 := by
      unfold ratio
      split <;> simp [h0]
    rw [hnum]
    exact d.ratio_pos
  · next h0 =>
    split
    · next h => exact (Binary64.ofRatio_of_overflow (overflowUnits_le_of_isHuge h0 h)).symm
    · split
      · next h => exact (Binary64.ofRatio_of_units (roundUnits_of_isTiny h)).symm
      · rfl

/-! ## The value decides -/

/-- Decimals of the same value read alike. -/
theorem toBinary64_congr {d d' : Decimal} (negative : Bool) (h : d.value = d'.value) :
    d.toBinary64 negative = d'.toBinary64 negative := by
  rw [toBinary64_eq_ofRatio, toBinary64_eq_ofRatio]
  apply Binary64.ofRatio_congr
  apply roundUnits_eq_of_mul_eq d.ratio_pos d'.ratio_pos
  have hq : (d.ratio.1 : ℚ) * d'.ratio.2 = d'.ratio.1 * d.ratio.2 := by
    rw [d.ratio_eq, d'.ratio_eq, h]
    ring
  exact_mod_cast hq

/-- A decimal with the value of a magnitude reads as it. -/
theorem toBinary64_of_value {d : Decimal} {m : Magnitude} (negative : Bool)
    (h : d.value * oneUnits = m.units) : d.toBinary64 negative = .finite negative m := by
  rw [toBinary64_eq_ofRatio]
  apply Binary64.ofRatio_units d.ratio_pos
  have hq : (d.ratio.1 : ℚ) = m.units * d.ratio.2 := by
    rw [d.ratio_eq, h]
  exact_mod_cast hq

/-- The sign has no part in the rounding. -/
theorem toBinary64_sign {d : Decimal} {m : Magnitude} (negative : Bool)
    (h : d.toBinary64 false = .finite false m) : d.toBinary64 negative = .finite negative m := by
  rw [toBinary64_eq_ofRatio] at h ⊢
  unfold Binary64.ofRatio at h ⊢
  cases hm : Magnitude.ofRatio? d.ratio.1 d.ratio.2 with
  | none =>
    rw [hm] at h
    cases h
  | some n =>
    rw [hm] at h
    cases h
    rfl

theorem value_stripZeros (fuel : Nat) (d : Decimal) : (d.stripZeros fuel).value = d.value := by
  induction fuel generalizing d with
  | zero => rfl
  | succ fuel ih =>
    unfold stripZeros
    split
    · next h =>
      rw [ih]
      have hd : d.digits = d.digits / 10 * 10 := by omega
      have hq : (d.digits : ℚ) = ((d.digits / 10 : Nat) : ℚ) * 10 := by exact_mod_cast hd
      simp only [value]
      rw [hq, zpow_add_one₀ (by norm_num)]
      ring
    · rfl

end Decimal

namespace Magnitude

theorem five_pow_mul_two_pow (k : Nat) :
    ((Nat.pow 5 k : Nat) : ℚ) * (10 : ℚ) ^ (-(k : Int)) * (twoPow k : Nat) = 1 := by
  have hfive : ((Nat.pow 5 k : Nat) : ℚ) = 5 ^ k := Nat.cast_pow 5 k
  have htwo : ((twoPow k : Nat) : ℚ) = 2 ^ k := Nat.cast_pow 2 k
  have hten : (10 : ℚ) ^ k = 5 ^ k * 2 ^ k := by
    rw [← mul_pow]
    norm_num
  rw [hfive, htwo, zpow_neg, zpow_natCast, hten]
  field_simp

theorem value_exact (m : Magnitude) : m.exact.value * oneUnits = m.units := by
  have h := five_pow_mul_two_pow oneBits
  simp only [Decimal.value, exact]
  calc ((m.units * Nat.pow 5 oneBits : Nat) : ℚ) * (10 : ℚ) ^ (-(oneBits : Int)) * oneUnits
      = m.units * (((Nat.pow 5 oneBits : Nat) : ℚ) * (10 : ℚ) ^ (-(oneBits : Int)) * oneUnits) := by
        rw [Nat.cast_mul]
        ring
    _ = m.units := by
        rw [oneUnits, h, mul_one]

theorem readsBack_of_onGrid? {m : Magnitude} {e : Int} {d : Decimal} (h : m.onGrid? e = some d) :
    m.readsBack d = true := by
  unfold onGrid? at h
  dsimp only at h
  split at h
  · next hlow hhigh =>
    split at h
    · cases h
      exact hlow
    · cases h
      exact hhigh
    · cases h
      split
      · exact hlow
      · exact hhigh
  · next hlow _ =>
    cases h
    exact hlow
  · next _ hhigh =>
    cases h
    exact hhigh
  · cases h

/-- The shortest decimal of a magnitude reads back, with either sign. -/
theorem toBinary64_shortest (negative : Bool) (m : Magnitude) :
    m.shortest.toBinary64 negative = .finite negative m := by
  apply Decimal.toBinary64_sign
  unfold shortest
  dsimp only
  rw [Decimal.toBinary64_congr false (Decimal.value_stripZeros _ _)]
  cases hg : (List.range 17).findSome? fun n : Nat => m.onGrid? (m.scale - 1 - (n : Int)) with
  | none => exact Decimal.toBinary64_of_value false m.value_exact
  | some d =>
    obtain ⟨n, _, hn⟩ := List.exists_of_findSome?_eq_some hg
    exact eq_of_beq (readsBack_of_onGrid? hn)

end Magnitude
end PrefixCalc
