import PrefixCalc.Number.Decimal

/-! # Number literals

A literal is an optional sign, then digits with an optional point and more digits, or a
point and at least one digit, then an optional exponent. Digits are the ten ASCII digits.
`Literal.ofText?` takes a text apart and `Literal.toText` puts it together again;
`Literal.Valid` says which parts may go together. -/

namespace PrefixCalc
set_option autoImplicit false

namespace Text

def isSign (c : Char) : Bool := c == '+' || c == '-'

/-- The number that a run of digits writes. -/
def toNat (t : Text) : Nat := t.foldl (fun n c => 10 * n + (c.toNat - 48)) 0

end Text

/-- An exponent: its mark, its sign if there is one, and its digits. -/
structure Literal.Exponent where
  mark : Char
  sign : Option Char
  digits : Text
deriving DecidableEq

structure Literal where
  sign : Option Char
  whole : Text
  /-- What follows the point, if there is a point. -/
  fraction : Option Text
  exponent : Option Literal.Exponent
deriving DecidableEq

namespace Literal

def splitSign : Text → Option Char × Text
  | [] => (none, [])
  | c :: t => if Text.isSign c then (some c, t) else (none, c :: t)

def splitDigits (t : Text) : Text × Text := (t.takeWhile Char.isDigit, t.dropWhile Char.isDigit)

def splitFraction : Text → Option Text × Text
  | '.' :: t => (some (splitDigits t).1, (splitDigits t).2)
  | t => (none, t)

/-- The exponent that is the whole text, or `none` if it is something else. -/
def exponentOf? : Text → Option (Option Exponent)
  | [] => some none
  | c :: t =>
    let (sign, digits) := splitSign t
    if (c = 'e' ∨ c = 'E') ∧ digits ≠ [] ∧ digits.all Char.isDigit then
      some (some ⟨c, sign, digits⟩)
    else none

def hasDigit (whole : Text) (fraction : Option Text) : Bool :=
  !whole.isEmpty || fraction.any (!·.isEmpty)

def ofText? (t : Text) : Option Literal :=
  let (sign, t) := splitSign t
  let (whole, t) := splitDigits t
  let (fraction, t) := splitFraction t
  match exponentOf? t with
  | some exponent =>
    if hasDigit whole fraction then some ⟨sign, whole, fraction, exponent⟩ else none
  | none => none

def Exponent.toText (e : Exponent) : Text := e.mark :: (e.sign.toList ++ e.digits)

def toText (l : Literal) : Text :=
  l.sign.toList ++ l.whole ++ (match l.fraction with | some f => '.' :: f | none => [])
    ++ (match l.exponent with | some e => e.toText | none => [])

structure Exponent.Valid (e : Exponent) : Prop where
  mark : e.mark = 'e' ∨ e.mark = 'E'
  sign : ∀ c, e.sign = some c → Text.isSign c = true
  digits : e.digits ≠ [] ∧ ∀ c ∈ e.digits, c.isDigit = true

structure Valid (l : Literal) : Prop where
  sign : ∀ c, l.sign = some c → Text.isSign c = true
  whole : ∀ c ∈ l.whole, c.isDigit = true
  fraction : ∀ f, l.fraction = some f → ∀ c ∈ f, c.isDigit = true
  digit : l.whole ≠ [] ∨ ∃ f, l.fraction = some f ∧ f ≠ []
  exponent : ∀ e, l.exponent = some e → e.Valid

def Exponent.value (e : Exponent) : Int :=
  if e.sign = some '-' then -(Text.toNat e.digits : Int) else Text.toNat e.digits

def isNegative (l : Literal) : Bool := l.sign == some '-'

/-- All digits as one number, scaled by the exponent less the digits after the point. -/
def toDecimal (l : Literal) : Decimal :=
  let fraction := l.fraction.getD []
  ⟨Text.toNat (l.whole ++ fraction),
    (match l.exponent with | some e => e.value | none => 0) - fraction.length⟩

def toBinary64 (l : Literal) : Binary64 := l.toDecimal.toBinary64 l.isNegative

end Literal

namespace Text

def isNumber (t : Text) : Bool := (Literal.ofText? t).isSome

def toBinary64? (t : Text) : Option Binary64 := (Literal.ofText? t).map Literal.toBinary64

theorem isNumber_iff_exists_toBinary64? {t : Text} :
    isNumber t = true ↔ ∃ v, toBinary64? t = some v := by
  unfold isNumber toBinary64?
  cases Literal.ofText? t <;> simp

end Text
end PrefixCalc
