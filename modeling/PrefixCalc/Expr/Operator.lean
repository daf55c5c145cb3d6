import PrefixCalc.Text.Basic
import PrefixCalc.Number.Power

/-! # Operators

Each operator has a symbol, an arity and a rule on doubles. A rule has a value exactly
when the arity accepts the number of operands; division by zero is a value too. -/

namespace PrefixCalc
set_option autoImplicit false

/-- The operand counts that an operator takes: one number, or any. -/
inductive Arity where
  | fixed (count : Nat)
  | variadic
deriving DecidableEq

namespace Arity

def isVariadic : Arity → Bool
  | variadic => true
  | fixed _ => false

def accepts : Arity → Nat → Bool
  | variadic, _ => true
  | fixed n, k => k == n

def count? : Arity → Option Nat
  | variadic => none
  | fixed n => some n

/-- Another operand may follow the given number of operands. -/
def wantsMore : Arity → Nat → Bool
  | variadic, _ => true
  | fixed n, k => k < n

/-- The same test by comparison with the number of a fixed arity; there is no answer when the
comparison meets no number. -/
def wantsMore? (a : Arity) (k : Nat) : Option Bool :=
  if a.isVariadic then some true else a.count?.map fun n => decide (k < n)

/-- The comparison is made for a fixed arity only, and always meets a number. -/
@[simp] theorem wantsMore?_eq (a : Arity) (k : Nat) : a.wantsMore? k = some (a.wantsMore k) := by
  cases a <;> rfl

def toText : Arity → Text
  | variadic => "variadic".toList
  | fixed n => Text.ofNat n

/-- The fixed arity of a count, which must not be negative. -/
def fixed? (count : Int) : Option Arity := if count < 0 then none else some (fixed count.toNat)

def negativeMessage (count : Int) : Text :=
  "Arity must be non-negative, got ".toList ++ Text.ofInt count

end Arity

/-! ## Rules -/

namespace Binary64

/-- The sum from the left, starting at zero: each addition is rounded, and what its rounding
loses is not made up for. -/
def sum (vs : List Binary64) : Binary64 := vs.foldl add zero

/-- The middle one of three after insertion into order; the comparisons and their order
matter when one of the three is not-a-number. -/
def median (a b c : Binary64) : Binary64 :=
  let insert (p q : Binary64) : Binary64 := if lt c q then (if lt c p then p else c) else q
  if lt b a then
    if lt c b then b else insert b a
  else if lt c b then insert a b else b

def arithmeticMean (vs : List Binary64) : Binary64 := div (sum vs) (ofNat vs.length)

/-- The product of the absolute values from the left, starting at one. -/
def absProduct (vs : List Binary64) : Binary64 := vs.foldl (fun p v => mul p (abs v)) one

/-- The exponent of the root of a product of this many factors. -/
def rootExponent (count : Nat) : Binary64 := div one (ofNat count)

/-- The root of the product of the absolute values; of no values, not-a-number. -/
def geometricMean? (vs : List Binary64) : Option Binary64 :=
  if vs.isEmpty then some nan else pow? (absProduct vs) (rootExponent vs.length)

def harmonicMean (vs : List Binary64) : Binary64 :=
  div (ofNat vs.length) (sum (vs.map (div one)))

end Binary64

inductive Operator where
  | add
  | subtract
  | multiply
  | divide
  | negate
  | median
  | average
  | arithmeticMean
  | geometricMean
  | harmonicMean
deriving DecidableEq

namespace Operator

def all : List Operator :=
  [add, subtract, multiply, divide, negate, median, average, arithmeticMean, geometricMean,
    harmonicMean]

def symbol : Operator → Text
  | add => "+".toList
  | subtract => "-".toList
  | multiply => "*".toList
  | divide => "/".toList
  | negate => "negate".toList
  | median => "med3".toList
  | average => "avg5".toList
  | arithmeticMean => "arith-mean".toList
  | geometricMean => "geom-mean".toList
  | harmonicMean => "harm-mean".toList

def arity : Operator → Arity
  | add | subtract | multiply | divide => .fixed 2
  | negate => .fixed 1
  | median => .fixed 3
  | average => .fixed 5
  | arithmeticMean | geometricMean | harmonicMean => .variadic

def ofSymbol? (t : Text) : Option Operator := all.find? (·.symbol == t)

def rule? : Operator → List Binary64 → Option Binary64
  | add, [a, b] => some (a.add b)
  | subtract, [a, b] => some (a.sub b)
  | multiply, [a, b] => some (a.mul b)
  | divide, [a, b] => some (a.div b)
  | negate, [a] => some a.neg
  | median, [a, b, c] => some (Binary64.median a b c)
  | average, [a, b, c, d, e] => ((((a.add b).add c).add d).add e).quotient? (.ofNat 5)
  | arithmeticMean, vs => some (Binary64.arithmeticMean vs)
  | geometricMean, vs => Binary64.geometricMean? vs
  | harmonicMean, vs => some (Binary64.harmonicMean vs)
  | _, _ => none

theorem mem_all (op : Operator) : op ∈ all := by cases op <;> decide

theorem ofSymbol?_symbol (op : Operator) : ofSymbol? op.symbol = some op := by
  cases op <;> decide

theorem symbol_of_ofSymbol? {t : Text} {op : Operator} (h : ofSymbol? t = some op) :
    op.symbol = t := by
  have := List.find?_some h
  simpa using this

end Operator
end PrefixCalc
