import PrefixCalc.Number.Binary64

/-! # Laws of the rounding

Rounding a quotient depends on its value only, gives back a count of units that is already a
magnitude, and goes to zero below a half and to infinity from the overflow limit on. -/

namespace PrefixCalc
set_option autoImplicit false

theorem roundDiv_mul_right (num den : Nat) {k : Nat} (hk : 0 < k) :
    roundDiv (num * k) (den * k) = roundDiv num den := by
  have hlt : 2 * (num % den * k) < den * k ↔ 2 * (num % den) < den := by
    rw [← Nat.mul_assoc]
    exact Nat.mul_lt_mul_right hk
  have heq : 2 * (num % den * k) = den * k ↔ 2 * (num % den) = den := by
    rw [← Nat.mul_assoc]
    exact Nat.mul_left_inj (Nat.ne_of_gt hk)
  simp only [roundDiv, Nat.mul_div_mul_right num den hk, Nat.mul_mod_mul_right, hlt, heq]

theorem roundUnits_mul_right (num den : Nat) {k : Nat} (hk : 0 < k) :
    roundUnits (num * k) (den * k) = roundUnits num den := by
  simp only [roundUnits, Nat.mul_div_mul_right num den hk]
  rw [Nat.mul_right_comm den k, roundDiv_mul_right _ _ hk]

/-- Equal quotients are rounded alike. -/
theorem roundUnits_eq_of_mul_eq {num den num' den' : Nat} (hd : 0 < den) (hd' : 0 < den')
    (h : num * den' = num' * den) : roundUnits num den = roundUnits num' den' := by
  rw [← roundUnits_mul_right num den hd', h, Nat.mul_comm den den', roundUnits_mul_right _ _ hd]

theorem roundDiv_eq_of_dvd {num den : Nat} (hd : 0 < den) (h : den ∣ num) :
    roundDiv num den = num / den := by
  have hr : num % den = 0 := Nat.mod_eq_zero_of_dvd h
  simp only [roundDiv, hr]
  exact if_pos (.inl hd)

theorem roundUnits_one_of_dvd {n : Nat} (h : twoPow (n.log2 - 52) ∣ n) : roundUnits n 1 = n := by
  rw [roundUnits, Nat.div_one, Nat.one_mul, roundDiv_eq_of_dvd (twoPow_pos _) h]
  exact Nat.div_mul_cancel h

theorem roundUnits_eq_zero {num den : Nat} (h : 2 * num < den) : roundUnits num den = 0 := by
  have hq : num / den = 0 := Nat.div_eq_of_lt (by omega)
  have hlog : Nat.log2 0 - 52 = 0 := by decide
  have htwo : twoPow 0 = 1 := rfl
  have hmod : num % den = num := Nat.mod_eq_of_lt (by omega)
  simp only [roundUnits, hq, hlog, htwo, Nat.mul_one, roundDiv, hmod]
  exact if_pos (.inl h)

theorem twoPow_log2_le {n : Nat} (h : n ≠ 0) : twoPow n.log2 ≤ n := Nat.log2_self_le h

/-- A quotient beyond a power of two that needs more than 53 bits is not rounded below it. -/
theorem twoPow_le_roundUnits {num den b : Nat} (h : twoPow b ≤ num / den) :
    twoPow b ≤ roundUnits num den := by
  have hne : num / den ≠ 0 := by
    have := twoPow_pos b
    omega
  have hb : b ≤ (num / den).log2 := (Nat.le_log2 hne).2 h
  have hlog := twoPow_log2_le hne
  -- the count is a multiple of its last kept bit, so that rounding cannot fall below 2 ^ L
  generalize hL : (num / den).log2 = L at hb hlog
  have hsplit : twoPow L = twoPow (L - (L - 52)) * twoPow (L - 52) := by
    rw [← twoPow_add]
    congr 1
    omega
  have hdiv : twoPow (L - (L - 52)) ≤ num / (den * twoPow (L - 52)) := by
    rw [← Nat.div_div_eq_div_mul, Nat.le_div_iff_mul_le (twoPow_pos _), ← hsplit]
    exact hlog
  calc twoPow b ≤ twoPow L := twoPow_le_twoPow hb
    _ = twoPow (L - (L - 52)) * twoPow (L - 52) := hsplit
    _ ≤ roundDiv num (den * twoPow (L - 52)) * twoPow (L - 52) :=
        Nat.mul_le_mul_right _ (Nat.le_trans hdiv (le_roundDiv _ _))
    _ = roundUnits num den := by rw [roundUnits, hL]

/-- A quotient of at most a power of two is not rounded beyond it. -/
theorem roundUnits_le_twoPow {num den b : Nat} (hd : 0 < den) (h : num ≤ twoPow b * den) :
    roundUnits num den ≤ twoPow b := by
  rcases Nat.eq_or_lt_of_le h with heq | hlt
  · have hexact : twoPow ((twoPow b).log2 - 52) ∣ twoPow b := by
      rw [log2_twoPow]
      exact twoPow_dvd_twoPow (Nat.sub_le b 52)
    apply Nat.le_of_eq
    rw [roundUnits_eq_of_mul_eq hd Nat.one_pos ((Nat.mul_one num).trans heq),
      roundUnits_one_of_dvd hexact]
  · have hq : num / den < twoPow b := (Nat.div_lt_iff_lt_mul hd).2 hlt
    generalize hk : (num / den).log2 - 52 = k
    have hkb : k ≤ b := by
      rcases Nat.eq_zero_or_pos (num / den) with h0 | hpos
      · rw [h0] at hk
        have hlog : Nat.log2 0 = 0 := by decide
        omega
      · have hlog := (log2_lt (Nat.ne_of_gt hpos)).2 hq
        omega
    have hsplit : twoPow b = twoPow (b - k) * twoPow k := by
      rw [← twoPow_add, Nat.sub_add_cancel hkb]
    have hround : roundDiv num (den * twoPow k) ≤ twoPow (b - k) := by
      refine Nat.le_trans (roundDiv_le _ _) ?_
      rw [← Nat.div_div_eq_div_mul]
      apply (Nat.div_lt_iff_lt_mul (twoPow_pos k)).2
      rwa [← hsplit]
    rw [roundUnits, hk, hsplit]
    exact Nat.mul_le_mul_right _ hround

theorem Magnitude.ofRatio?_of_units {num den : Nat} {m : Magnitude}
    (h : roundUnits num den = m.units) : ofRatio? num den = some m := by
  have hlt : roundUnits num den < overflowUnits := Nat.lt_of_le_of_lt (Nat.le_of_eq h) m.bounded
  exact (dif_pos hlt).trans (congrArg some (units_inj h))

theorem Magnitude.ofRatio?_of_overflow {num den : Nat} (h : overflowUnits ≤ roundUnits num den) :
    ofRatio? num den = none :=
  dif_neg (Nat.not_lt.2 h)

namespace Binary64

theorem ofRatio_of_units {negative : Bool} {num den : Nat} {m : Magnitude}
    (h : roundUnits num den = m.units) : ofRatio negative num den = .finite negative m := by
  unfold ofRatio
  rw [Magnitude.ofRatio?_of_units h]

theorem ofRatio_of_overflow {negative : Bool} {num den : Nat}
    (h : overflowUnits ≤ roundUnits num den) : ofRatio negative num den = .inf negative := by
  unfold ofRatio
  rw [Magnitude.ofRatio?_of_overflow h]

theorem ofRatio_congr {negative : Bool} {num den num' den' : Nat}
    (h : roundUnits num den = roundUnits num' den') :
    ofRatio negative num den = ofRatio negative num' den' := by
  rcases Nat.lt_or_ge (roundUnits num den) overflowUnits with hlt | hle
  · let m : Magnitude := ⟨roundUnits num den, hlt, dyadic_roundUnits num den⟩
    exact (ofRatio_of_units (m := m) rfl).trans (ofRatio_of_units (m := m) h.symm).symm
  · exact (ofRatio_of_overflow hle).trans (ofRatio_of_overflow (h ▸ hle)).symm

/-- A magnitude is its own rounding. -/
theorem ofRatio_units {negative : Bool} {num den : Nat} {m : Magnitude} (hd : 0 < den)
    (h : num = m.units * den) : ofRatio negative num den = .finite negative m := by
  apply ofRatio_of_units
  rw [h, ← roundUnits_one_of_dvd m.dyadic]
  apply roundUnits_eq_of_mul_eq hd Nat.one_pos
  rw [Nat.mul_one, roundUnits_one_of_dvd m.dyadic]

theorem isNaN_ofRatio (negative : Bool) (num den : Nat) :
    (ofRatio negative num den).isNaN = false := by
  unfold ofRatio
  cases Magnitude.ofRatio? num den <;> rfl

theorem isNegative_ofRatio (negative : Bool) (num den : Nat) :
    (ofRatio negative num den).isNegative = negative := by
  unfold ofRatio
  cases Magnitude.ofRatio? num den <;> rfl

end Binary64
end PrefixCalc
