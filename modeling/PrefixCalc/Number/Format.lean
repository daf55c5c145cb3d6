import PrefixCalc.Number.Decimal

/-! # Written numbers

A double is written with the fewest digits that read back. `Binary64.toText` always shows
that it is no integer count: a whole number keeps a point and a zero. `Binary64.format`
writes whole numbers below 10^16 as plain integers, which is how a source writes them. -/

namespace PrefixCalc
set_option autoImplicit false

namespace Decimal

/-- The exponent of the leading digit, for the digits of the decimal. -/
def leading (digits : Text) (d : Decimal) : Int := (digits.length : Int) - 1 + d.exponent

/-- The point after, inside or before the digits; a whole number gets a point and a zero. -/
def positional (digits : Text) (lead : Int) : Text :=
  if lead < 0 then
    '0' :: '.' :: (List.replicate (-lead - 1).toNat '0' ++ digits)
  else if digits.length ≤ lead.toNat + 1 then
    digits ++ List.replicate (lead.toNat + 1 - digits.length) '0' ++ ['.', '0']
  else digits.take (lead.toNat + 1) ++ '.' :: digits.drop (lead.toNat + 1)

/-- An exponent has a sign and at least two digits. -/
def exponentText (lead : Int) : Text :=
  let digits := Text.ofNat lead.natAbs
  'e' :: (if lead < 0 then '-' else '+') :: (if digits.length < 2 then '0' :: digits else digits)

/-- One digit before the point and an exponent; no point without a digit after it. -/
def scientific (digits : Text) (lead : Int) : Text :=
  match digits with
  | [] => []
  | [c] => c :: exponentText lead
  | c :: rest => c :: '.' :: (rest ++ exponentText lead)

/-- Leading digits from 10^-4 up to 10^15 are written positionally. -/
def toText (d : Decimal) : Text :=
  let digits := Text.ofNat d.digits
  let lead := d.leading digits
  if -4 ≤ lead ∧ lead < 16 then positional digits lead else scientific digits lead

end Decimal

namespace Binary64

def signText (negative : Bool) : Text := if negative then ['-'] else []

def magnitudeText (m : Magnitude) : Text :=
  if m.units = 0 then "0.0".toList else m.shortest.toText

def toText : Binary64 → Text
  | nan => "nan".toList
  | inf s => signText s ++ "inf".toList
  | finite s m => signText s ++ magnitudeText m

def plainBound : Nat := tenPow 16

/-- The text of a number in a source: whole numbers below 10^16 are plain integers. -/
def format : Binary64 → Text
  | finite s m =>
    if m.isIntegral && decide (m.floor < plainBound) then signText s ++ Text.ofNat m.floor
    else toText (finite s m)
  | v => toText v

end Binary64
end PrefixCalc
