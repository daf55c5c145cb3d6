import PrefixCalc.Number.Binary64

/-! # Fractional powers

`Binary64.pow?` raises a non-negative double to a power in (0, 1] with one rounding. The
real value is computed in fixed point with 320 binary places, as the exponential of a
multiple of the logarithm, so that only a value within a hair of the middle between two
doubles could be rounded to the wrong side. Outside that domain there is no result. -/

namespace PrefixCalc
set_option autoImplicit false

/-! ## Logarithm and exponential in fixed point -/

namespace Fixed

def places : Nat := 320

def one : Int := twoPow places

def mul (a b : Int) : Int := a * b / one

def div (a b : Int) : Int := a * one / b

/-- The terms `z, z³/3, z⁵/5, …` of the inverse hyperbolic tangent, from the odd index on. -/
def artanhTerms : Nat → Int → Int → Nat → Int
  | 0, _, _, _ => 0
  | fuel + 1, power, square, odd =>
    power / odd + artanhTerms fuel (mul power square) square (odd + 2)

def log (t : Int) : Int :=
  let z := div (t - one) (t + one)
  2 * artanhTerms 120 z (mul z z) 1

def logTwo : Int := log (2 * one)

/-- The terms of the exponential series from the given one on. -/
def expTerms : Nat → Int → Int → Nat → Int
  | 0, _, _, _ => 0
  | fuel + 1, term, r, n => term + expTerms fuel (mul term r / n) r (n + 1)

def expSmall (r : Int) : Int := expTerms 80 one r 1

end Fixed

namespace Binary64

/-- `2 ^ n` units as a quotient, for an exponent of any sign. -/
def scaleRatio (num : Nat) (n : Int) : Nat × Nat :=
  if 0 ≤ n then (num * twoPow n.toNat, 1) else (num, twoPow n.natAbs)

/-- A positive magnitude to a power, given in units. -/
def powUnits (base exponent : Magnitude) : Binary64 :=
  let bits := base.units.log2
  let mantissa : Int := base.units * Fixed.one / twoPow bits
  let log := ((bits : Int) - oneBits) * Fixed.logTwo + Fixed.log mantissa
  let scaled := log * exponent.units / oneUnits
  let whole := (2 * scaled + Fixed.logTwo) / (2 * Fixed.logTwo)
  let rest := Fixed.expSmall (scaled - whole * Fixed.logTwo)
  let (num, den) := scaleRatio rest.toNat (whole + oneBits - Fixed.places)
  ofRatio false num den

/-- The exponents that `pow?` takes: above zero and at most one. -/
def IsRootExponent : Binary64 → Prop
  | finite s m => s = false ∧ 0 < m.units ∧ m.units ≤ oneUnits
  | _ => False

instance (v : Binary64) : Decidable (IsRootExponent v) := by
  cases v <;> unfold IsRootExponent <;> infer_instance

/-- A base that is not negative, to a power in (0, 1]. A base that is not-a-number stays so. The
result is the real power rounded once; a library of elementary functions may be off from it in the
last place. -/
def pow? (base exponent : Binary64) : Option Binary64 :=
  if IsRootExponent exponent then
    match base, exponent with
    | nan, _ => some nan
    | inf false, _ => some (inf false)
    | finite s m, finite _ e =>
      if m.units = 0 then some zero else if s then none else some (powUnits m e)
    | _, _ => none
  else none

end Binary64
end PrefixCalc
