import PrefixCalc.Number.Power
import PrefixCalc.Proofs.Number.Rounding

/-! # Roots of products

A root is taken of a product of absolute values, which is never negative, and its exponent is
the inverse of a count, which lies above zero and at most at one as long as the count is a finite
double. Such a power has a value. -/

namespace PrefixCalc
set_option autoImplicit false

namespace Binary64

/-! ## The product of absolute values -/

theorem isNegative_mul_abs {p : Binary64} (hp : p.isNegative = false) (v : Binary64) :
    (mul p v.abs).isNegative = false := by
  cases p with
  | nan => rfl
  | inf s =>
    cases hp
    cases v with
    | nan => rfl
    | inf t => rfl
    | finite t n =>
      rw [abs, mul]
      split <;> rfl
  | finite s m =>
    cases hp
    cases v with
    | nan => rfl
    | inf t =>
      rw [abs, mul]
      split <;> rfl
    | finite t n =>
      rw [abs, mul]
      exact isNegative_ofRatio _ _ _

theorem isNegative_foldl_mul_abs (vs : List Binary64) : ∀ {p : Binary64},
    p.isNegative = false → (vs.foldl (fun p v => mul p v.abs) p).isNegative = false := by
  induction vs with
  | nil =>
    intro p hp
    exact hp
  | cons v vs ih =>
    intro p hp
    exact ih (isNegative_mul_abs hp v)

/-! ## The exponent of a root -/

theorem isFinite_ofNat {n : Nat} (h : n < twoPow 1023) : (ofNat n).isFinite = true := by
  have hle : roundUnits (n * oneUnits) 1 ≤ twoPow (1023 + oneBits) := by
    apply roundUnits_le_twoPow Nat.one_pos
    rw [Nat.mul_one, twoPow_add, ← oneUnits]
    exact Nat.mul_le_mul_right _ (Nat.le_of_lt h)
  have hb := Nat.lt_of_le_of_lt hle (twoPow_lt_twoPow (k := oneBits + 1024) (by omega))
  rw [ofNat, ofRatio_of_units (m := ⟨_, hb, dyadic_roundUnits _ _⟩) rfl]
  rfl

theorem exists_ofNat_eq {n : Nat} (hpos : 0 < n) (hf : (ofNat n).isFinite = true) :
    ∃ m : Magnitude, ofNat n = .finite false m ∧ oneUnits ≤ m.units := by
  rcases Nat.lt_or_ge (roundUnits (n * oneUnits) 1) overflowUnits with hlt | hge
  · refine ⟨⟨_, hlt, dyadic_roundUnits _ _⟩, ofRatio_of_units rfl, ?_⟩
    apply twoPow_le_roundUnits
    rw [Nat.div_one]
    exact Nat.le_mul_of_pos_left _ hpos
  · rw [ofNat, ofRatio_of_overflow hge] at hf
    cases hf

theorem exists_one_eq : ∃ m : Magnitude, one = .finite false m ∧ m.units = oneUnits := by
  have hdvd : twoPow (oneUnits.log2 - 52) ∣ oneUnits := by
    rw [oneUnits, log2_twoPow]
    exact twoPow_dvd_twoPow (Nat.sub_le _ _)
  have hlt : oneUnits < overflowUnits := twoPow_lt_twoPow (k := oneBits + 1024) (by omega)
  refine ⟨⟨oneUnits, hlt, hdvd⟩, ?_, by dsimp only⟩
  rw [one, ofNat]
  apply ofRatio_units Nat.one_pos
  rw [Nat.one_mul, Nat.mul_one]

theorem div_finite {s t : Bool} {m n : Magnitude} (h : n.units ≠ 0) :
    div (finite s m) (finite t n) = ofRatio (s != t) (m.units * oneUnits) n.units := by
  have hz : (finite t n).isZero = false := beq_eq_false_iff_ne.2 h
  rw [div, quotient?, hz]
  rfl

/-- The inverse of a count is above zero and at most one. -/
theorem exists_div_one_eq {n : Nat} (hpos : 0 < n) (hf : (ofNat n).isFinite = true) :
    ∃ m : Magnitude, div one (ofNat n) = .finite false m ∧ 0 < m.units ∧ m.units ≤ oneUnits := by
  obtain ⟨m, hm, hle⟩ := exists_ofNat_eq hpos hf
  obtain ⟨u, hu, hunits⟩ := exists_one_eq
  have hmpos : 0 < m.units := Nat.lt_of_lt_of_le oneUnits_pos hle
  have hupper : roundUnits (oneUnits * oneUnits) m.units ≤ oneUnits := by
    apply roundUnits_le_twoPow hmpos
    rw [← oneUnits]
    exact Nat.mul_le_mul_left _ hle
  have hlower : twoPow 0 ≤ roundUnits (oneUnits * oneUnits) m.units := by
    apply twoPow_le_roundUnits
    have hbound : m.units ≤ oneUnits * oneUnits := by
      refine Nat.le_trans (Nat.le_of_lt m.bounded) ?_
      rw [overflowUnits, oneUnits, ← twoPow_add]
      exact twoPow_le_twoPow (by decide)
    exact Nat.div_pos hbound hmpos
  have hb := Nat.lt_of_le_of_lt hupper (hunits ▸ u.bounded)
  refine ⟨⟨_, hb, dyadic_roundUnits _ _⟩, ?_, hlower, hupper⟩
  rw [hu, hm, div_finite (Nat.ne_of_gt hmpos), hunits]
  exact ofRatio_of_units rfl

theorem exists_pow?_eq {base : Binary64} {e : Magnitude} (hb : base.isNegative = false)
    (hpos : 0 < e.units) (hle : e.units ≤ oneUnits) :
    ∃ v, pow? base (.finite false e) = some v := by
  have he : IsRootExponent (.finite false e) := ⟨rfl, hpos, hle⟩
  cases base with
  | nan => exact ⟨nan, by rw [pow?, if_pos he]⟩
  | inf s =>
    cases hb
    exact ⟨inf false, by rw [pow?, if_pos he]⟩
  | finite s m =>
    cases hb
    rw [pow?, if_pos he]
    by_cases h0 : m.units = 0
    · exact ⟨zero, if_pos h0⟩
    · exact ⟨powUnits m e, by rw [if_neg h0]; rfl⟩

end Binary64
end PrefixCalc
