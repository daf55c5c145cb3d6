import PrefixCalc.Text.Basic
import PrefixCalc.Number.Binary64

/-! # Decimals

A decimal is a natural number scaled by a power of ten. `Decimal.toBinary64` reads it with
one rounding, whatever its length; `Magnitude.shortest` goes the other way and finds the
decimal of fewest digits that reads back. -/

namespace PrefixCalc
set_option autoImplicit false

/-- The number `digits * 10 ^ exponent`. -/
structure Decimal where
  digits : Nat
  exponent : Int
deriving DecidableEq

namespace Decimal

def ratio (d : Decimal) : Nat × Nat :=
  if 0 ≤ d.exponent then (d.digits * tenPow d.exponent.toNat * oneUnits, 1)
  else (d.digits * oneUnits, tenPow d.exponent.natAbs)

/-- The decimal is so large that it overflows, whatever its digits. -/
def isHuge (d : Decimal) : Bool := 310 ≤ d.exponent

/-- The decimal is less than half of the least unit, since ten is more than eight. -/
def isTiny (d : Decimal) : Bool := d.exponent < 0 && d.digits.log2 + 1076 < 3 * d.exponent.natAbs

/-- The nearest double. The two shortcuts keep enormous powers of ten from being computed. -/
def toBinary64 (negative : Bool) (d : Decimal) : Binary64 :=
  if d.digits = 0 then .finite negative .zero
  else if d.isHuge then .inf negative
  else if d.isTiny then .finite negative .zero
  else .ofRatio negative d.ratio.1 d.ratio.2

/-- Zeros at the end of the digits go into the exponent; the fuel bounds their number. -/
def stripZeros : Nat → Decimal → Decimal
  | 0, d => d
  | fuel + 1, d =>
    if d.digits ≠ 0 ∧ d.digits % 10 = 0 then stripZeros fuel ⟨d.digits / 10, d.exponent + 1⟩
    else d

end Decimal

namespace Magnitude

/-- The least `e` such that the magnitude is below `10 ^ e`, for a magnitude of at least one. -/
def wholeScale (m : Magnitude) : Int := (Nat.toDigits 10 m.floor).length

/-- The least number `j ≤ fuel` with `oneUnits ≤ n * 10 ^ j`. -/
def fractionScale : Nat → Nat → Nat
  | 0, _ => 0
  | fuel + 1, n => if oneUnits ≤ n then 0 else fractionScale fuel (n * 10) + 1

/-- The place of the leading digit: the least `e` such that the magnitude is below `10 ^ e`. -/
def scale (m : Magnitude) : Int :=
  if oneUnits ≤ m.units then m.wholeScale else 1 - (fractionScale 330 m.units : Int)

/-- The whole number of steps of `10 ^ e` in the magnitude. -/
def gridFloor (m : Magnitude) (e : Int) : Nat :=
  if 0 ≤ e then m.units / (oneUnits * tenPow e.toNat) else m.units * tenPow e.natAbs / oneUnits

/-- Twice the magnitude compared with an odd number of half steps of `10 ^ e`. -/
def compareHalf (m : Magnitude) (halves : Nat) (e : Int) : Ordering :=
  if 0 ≤ e then compare (2 * m.units) (halves * oneUnits * tenPow e.toNat)
  else compare (2 * m.units * tenPow e.natAbs) (halves * oneUnits)

def readsBack (m : Magnitude) (d : Decimal) : Bool := d.toBinary64 false == .finite false m

/-- The decimal on the grid of `10 ^ e` that reads back, if one of the two neighbours of the
magnitude does: of two the nearer, and of two equally near the even one. -/
def onGrid? (m : Magnitude) (e : Int) : Option Decimal :=
  let low := m.gridFloor e
  match m.readsBack ⟨low, e⟩, m.readsBack ⟨low + 1, e⟩ with
  | true, true =>
    match m.compareHalf (2 * low + 1) e with
    | .lt => some ⟨low, e⟩
    | .gt => some ⟨low + 1, e⟩
    | .eq => some (if low % 2 = 0 then ⟨low, e⟩ else ⟨low + 1, e⟩)
  | true, false => some ⟨low, e⟩
  | false, true => some ⟨low + 1, e⟩
  | false, false => none

def exact (m : Magnitude) : Decimal := ⟨m.units * Nat.pow 5 oneBits, -(oneBits : Int)⟩

/-- The decimal of fewest digits that reads back. -/
def shortest (m : Magnitude) : Decimal :=
  let onGrids := (List.range 17).findSome? fun n : Nat => m.onGrid? (m.scale - 1 - (n : Int))
  let d := onGrids.getD m.exact
  d.stripZeros (Nat.toDigits 10 d.digits).length

end Magnitude
end PrefixCalc
