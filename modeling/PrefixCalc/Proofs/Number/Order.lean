import PrefixCalc.Proofs.Number.Rounding

/-! # The order of the doubles

A number has an integer as its place, the signed count of its units, and an infinity has the
place of the overflow limit. Numbers are compared as their places are, and not-a-number is left
out of every comparison. -/

namespace PrefixCalc
set_option autoImplicit false

namespace Binary64

def place : Binary64 → Int
  | nan => 0
  | inf s => if s then -(overflowUnits : Int) else overflowUnits
  | finite s m => signedUnits s m

theorem signedUnits_not (s : Bool) (m : Magnitude) : signedUnits (!s) m = -signedUnits s m := by
  cases s <;> simp [signedUnits]

theorem natAbs_signedUnits (s : Bool) (m : Magnitude) : (signedUnits s m).natAbs = m.units := by
  cases s <;> simp [signedUnits]

theorem place_bounds (s : Bool) (m : Magnitude) :
    (inf true).place < (finite s m).place ∧ (finite s m).place < (inf false).place := by
  change -(overflowUnits : Int) < signedUnits s m ∧ signedUnits s m < overflowUnits
  have habs := natAbs_signedUnits s m
  have hlt := m.bounded
  generalize overflowUnits = limit at hlt
  omega

theorem place_inf_lt : (inf true).place < (inf false).place := by
  change -(overflowUnits : Int) < overflowUnits
  have hpos := overflowUnits_pos
  generalize overflowUnits = limit at hpos
  omega

variable {a b c : Binary64}

theorem lt_iff : a.lt b = true ↔ a.isNaN = false ∧ b.isNaN = false ∧ a.place < b.place := by
  have hinf := place_inf_lt
  cases a with
  | nan => simp [lt, isNaN]
  | inf s =>
    cases b with
    | nan => simp [lt, isNaN]
    | inf t => cases s <;> cases t <;> simp [lt, isNaN] <;> omega
    | finite t n =>
      have := place_bounds t n
      cases s <;> simp [lt, isNaN] <;> omega
  | finite s m =>
    cases b with
    | nan => simp [lt, isNaN]
    | inf t =>
      have := place_bounds s m
      cases t <;> simp [lt, isNaN] <;> omega
    | finite t n => simp [lt, isNaN, place]

theorem eq_iff : a.eq b = true ↔ a.isNaN = false ∧ b.isNaN = false ∧ a.place = b.place := by
  have hinf := place_inf_lt
  cases a with
  | nan => simp [eq, isNaN]
  | inf s =>
    cases b with
    | nan => simp [eq, isNaN]
    | inf t => cases s <;> cases t <;> simp [eq, isNaN] <;> omega
    | finite t n =>
      have := place_bounds t n
      cases s <;> simp [eq, isNaN] <;> omega
  | finite s m =>
    cases b with
    | nan => simp [eq, isNaN]
    | inf t =>
      have := place_bounds s m
      cases t <;> simp [eq, isNaN] <;> omega
    | finite t n => simp [eq, isNaN, place]

theorem le_iff : a.le b = true ↔ a.isNaN = false ∧ b.isNaN = false ∧ a.place ≤ b.place := by
  rw [le, Bool.or_eq_true, lt_iff, eq_iff, Int.le_iff_lt_or_eq, and_or_left, and_or_left]

theorem le_trans (hab : a.le b = true) (hbc : b.le c = true) : a.le c = true := by
  obtain ⟨ha, _, hlow⟩ := le_iff.1 hab
  obtain ⟨_, hc, hhigh⟩ := le_iff.1 hbc
  exact le_iff.2 ⟨ha, hc, Int.le_trans hlow hhigh⟩

theorem lt_eq_false_of_le (h : a.le b = true) : b.lt a = false := by
  rw [Bool.eq_false_iff]
  intro hlt
  have hle := (le_iff.1 h).2.2
  have hgt := (lt_iff.1 hlt).2.2
  omega

theorem place_of_isZero (h : a.isZero = true) : a.isNaN = false ∧ a.place = 0 := by
  cases a with
  | nan => cases h
  | inf s => cases h
  | finite s m =>
    have hunits : m.units = 0 := by simpa [isZero] using h
    refine ⟨rfl, ?_⟩
    have habs := natAbs_signedUnits s m
    rw [place]
    omega

/-! ## Distances -/

/-- A whole number of units that is not zero is not rounded to zero. -/
theorem place_abs_ofRatio_pos (negative : Bool) {num : Nat} (h : 0 < num) :
    0 < (ofRatio negative num 1).abs.place := by
  have hround : 0 < roundUnits num 1 := by
    have hle : twoPow 0 ≤ roundUnits num 1 := by
      apply twoPow_le_roundUnits
      rw [Nat.div_one]
      exact h
    exact Nat.lt_of_lt_of_le (twoPow_pos 0) hle
  unfold ofRatio Magnitude.ofRatio?
  split <;> rename_i hm
  · split at hm
    · cases hm
      simpa [abs, place, signedUnits] using hround
    · cases hm
  · exact Int.natCast_pos.2 overflowUnits_pos

/-- Numbers that are not equal have a distance, even where both are subnormal. -/
theorem abs_sub_le_zero_iff (ha : a.isFinite = true) (hb : b.isFinite = true) :
    (sub b a).abs.le zero = true ↔ a.eq b = true := by
  cases a with
  | nan => cases ha
  | inf s => cases ha
  | finite s m =>
    cases b with
    | nan => cases hb
    | inf t => cases hb
    | finite t n =>
      have hzero : zero.place = 0 := (place_of_isZero rfl).2
      have heq : (finite s m).eq (finite t n) = true ↔
          signedUnits t n + signedUnits (!s) m = 0 := by
        rw [eq_iff, signedUnits_not]
        simp only [isNaN, place, true_and]
        omega
      rw [heq, le_iff, hzero, sub, neg, add]
      split
      · rename_i hsum
        exact iff_of_true ⟨rfl, rfl, Int.le_of_eq hzero⟩ hsum
      · rename_i hsum
        have hpos := place_abs_ofRatio_pos (decide (signedUnits t n + signedUnits (!s) m < 0))
          (Int.natAbs_pos.2 hsum)
        simp only [hsum, iff_false]
        omega

end Binary64
end PrefixCalc
