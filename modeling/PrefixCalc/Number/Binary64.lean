import PrefixCalc.Number.Scale

/-! # Binary floating point with 53 bits

A magnitude counts units of 2^-1074, the least positive double. It keeps at most 53
leading bits and stays below 2^2098 units, so that equal counts are equal doubles and
every double has one count. A value is a signed magnitude, a signed infinity or the one
not-a-number.

`Binary64.ofRatio` is the only rounding: it takes a quotient in units to the nearest
double, a half to the even neighbour, and to infinity from the overflow limit on. -/

namespace PrefixCalc
set_option autoImplicit false

/-- The quotient rounded to the nearest natural number, a half to the even neighbour. -/
def roundDiv (num den : Nat) : Nat :=
  let q := num / den
  let r := num % den
  if 2 * r < den ∨ (2 * r = den ∧ q % 2 = 0) then q else q + 1

theorem roundDiv_le (num den : Nat) : roundDiv num den ≤ num / den + 1 := by
  unfold roundDiv
  dsimp only
  split <;> omega

theorem le_roundDiv (num den : Nat) : num / den ≤ roundDiv num den := by
  unfold roundDiv
  dsimp only
  split <;> omega

/-- The binary logarithm of one, in units. -/
def oneBits : Nat := 1074

def oneUnits : Nat := twoPow oneBits

/-- The overflow limit in units: the first power of two beyond the finite doubles. -/
def overflowUnits : Nat := twoPow (oneBits + 1024)

theorem oneUnits_pos : 0 < oneUnits := twoPow_pos oneBits

theorem overflowUnits_pos : 0 < overflowUnits := twoPow_pos (oneBits + 1024)

/-- The quotient rounded to a count of units with at most 53 leading bits. -/
def roundUnits (num den : Nat) : Nat :=
  let k := (num / den).log2 - 52
  roundDiv num (den * twoPow k) * twoPow k

theorem twoPow_dvd_of_le {m : Nat} (k : Nat) (hm : m ≤ twoPow 53) :
    twoPow ((m * twoPow k).log2 - 52) ∣ m * twoPow k := by
  by_cases h0 : m = 0
  · simp [h0]
  by_cases h53 : m = twoPow 53
  · subst h53
    rw [← twoPow_add, log2_twoPow]
    exact twoPow_dvd_twoPow (by omega)
  have hlt : m * twoPow k < twoPow (53 + k) := by
    rw [twoPow_add]
    exact Nat.mul_lt_mul_of_pos_right (by omega) (twoPow_pos k)
  have hne : m * twoPow k ≠ 0 := Nat.mul_ne_zero h0 (Nat.ne_of_gt (twoPow_pos k))
  have hlog : (m * twoPow k).log2 < 53 + k := (log2_lt hne).2 hlt
  exact Nat.dvd_trans (twoPow_dvd_twoPow (by omega)) (Nat.dvd_mul_left _ _)

theorem roundDiv_le_twoPow (num den : Nat) :
    roundDiv num (den * twoPow ((num / den).log2 - 52)) ≤ twoPow 53 := by
  refine Nat.le_trans (roundDiv_le _ _) ?_
  rw [← Nat.div_div_eq_div_mul]
  have hq := lt_twoPow_log2 (num / den)
  have hlt : num / den / twoPow ((num / den).log2 - 52) < twoPow 53 := by
    rw [Nat.div_lt_iff_lt_mul (twoPow_pos _), ← twoPow_add]
    exact Nat.lt_of_lt_of_le hq (twoPow_le_twoPow (by omega))
  omega

theorem dyadic_roundUnits (num den : Nat) :
    twoPow ((roundUnits num den).log2 - 52) ∣ roundUnits num den :=
  twoPow_dvd_of_le _ (roundDiv_le_twoPow num den)

/-- A count of units that a finite double has. -/
structure Magnitude where
  units : Nat
  bounded : units < overflowUnits
  dyadic : twoPow (units.log2 - 52) ∣ units
deriving DecidableEq

namespace Magnitude

theorem units_inj {m n : Magnitude} (h : m.units = n.units) : m = n := by
  cases m; cases n; simpa using h

def zero : Magnitude := ⟨0, overflowUnits_pos, Nat.dvd_zero _⟩

/-- The nearest magnitude to a quotient in units, if it is below the overflow limit. -/
def ofRatio? (num den : Nat) : Option Magnitude :=
  if h : roundUnits num den < overflowUnits then
    some ⟨roundUnits num den, h, dyadic_roundUnits num den⟩
  else none

def isIntegral (m : Magnitude) : Bool := m.units % oneUnits == 0

def floor (m : Magnitude) : Nat := m.units / oneUnits

end Magnitude

inductive Binary64 where
  | nan
  | inf (negative : Bool)
  | finite (negative : Bool) (magnitude : Magnitude)
deriving DecidableEq

namespace Binary64

def zero : Binary64 := .finite false .zero

/-- The double nearest to a signed quotient of units. -/
def ofRatio (negative : Bool) (num den : Nat) : Binary64 :=
  match Magnitude.ofRatio? num den with
  | some m => .finite negative m
  | none => .inf negative

def ofNat (n : Nat) : Binary64 := ofRatio false (n * oneUnits) 1

def ofInt (i : Int) : Binary64 := ofRatio (decide (i < 0)) (i.natAbs * oneUnits) 1

def one : Binary64 := ofNat 1

instance : Inhabited Binary64 := ⟨zero⟩

def isNaN : Binary64 → Bool
  | nan => true
  | _ => false

def isFinite : Binary64 → Bool
  | finite _ _ => true
  | _ => false

def isZero : Binary64 → Bool
  | finite _ m => m.units == 0
  | _ => false

/-- The sign bit; not-a-number has none. -/
def isNegative : Binary64 → Bool
  | nan => false
  | inf s => s
  | finite s _ => s

/-! ## Order -/

def signedUnits (negative : Bool) (m : Magnitude) : Int :=
  if negative then -(m.units : Int) else m.units

/-- Not-a-number is below nothing and above nothing; the two zeros are equal. -/
def lt : Binary64 → Binary64 → Bool
  | nan, _ => false
  | _, nan => false
  | inf s, inf t => s && !t
  | inf s, finite _ _ => s
  | finite _ _, inf t => !t
  | finite s m, finite t n => signedUnits s m < signedUnits t n

/-- Equality of numbers: not-a-number differs from itself, and the two zeros are equal. -/
def eq : Binary64 → Binary64 → Bool
  | nan, _ => false
  | _, nan => false
  | inf s, inf t => s == t
  | finite s m, finite t n => signedUnits s m == signedUnits t n
  | _, _ => false

def le (a b : Binary64) : Bool := lt a b || eq a b

/-! ## Arithmetic -/

def neg : Binary64 → Binary64
  | nan => nan
  | inf s => inf !s
  | finite s m => finite (!s) m

def abs : Binary64 → Binary64
  | nan => nan
  | inf _ => inf false
  | finite _ m => finite false m

/-- A sum that is exactly zero is negative only when both terms are. -/
def add : Binary64 → Binary64 → Binary64
  | nan, _ => nan
  | _, nan => nan
  | inf s, inf t => if s = t then inf s else nan
  | inf s, finite _ _ => inf s
  | finite _ _, inf t => inf t
  | finite s m, finite t n =>
    let sum := signedUnits s m + signedUnits t n
    if sum = 0 then finite (s && t) .zero else ofRatio (decide (sum < 0)) sum.natAbs 1

def sub (a b : Binary64) : Binary64 := add a (neg b)

def mul : Binary64 → Binary64 → Binary64
  | nan, _ => nan
  | _, nan => nan
  | inf s, inf t => inf (s != t)
  | inf s, finite t n => if n.units = 0 then nan else inf (s != t)
  | finite s m, inf t => if m.units = 0 then nan else inf (s != t)
  | finite s m, finite t n => ofRatio (s != t) (m.units * n.units) oneUnits

/-- The quotient by a divisor that is not zero. -/
def quotient? (a b : Binary64) : Option Binary64 :=
  if b.isZero then none
  else some (match a, b with
    | nan, _ => nan
    | _, nan => nan
    | inf _, inf _ => nan
    | inf s, finite t _ => inf (s != t)
    | finite s _, inf t => finite (s != t) .zero
    | finite s m, finite t n => ofRatio (s != t) (m.units * oneUnits) n.units)

/-- Division by zero gives a signed infinity, and zero by zero not-a-number. -/
def div (a b : Binary64) : Binary64 :=
  match quotient? a b with
  | some q => q
  | none => if a.isZero || a.isNaN then nan else inf (a.isNegative != b.isNegative)

theorem quotient?_eq_none_iff {a b : Binary64} : quotient? a b = none ↔ b.isZero = true := by
  simp [quotient?]

theorem div_of_isZero {a b : Binary64} (h : b.isZero = true) :
    div a b = if a.isZero || a.isNaN then nan else inf (a.isNegative != b.isNegative) := by
  rw [div, quotient?_eq_none_iff.2 h]

@[simp] theorem neg_neg (a : Binary64) : neg (neg a) = a := by
  cases a <;> simp [neg]

end Binary64
end PrefixCalc
