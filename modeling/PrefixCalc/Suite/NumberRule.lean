import PrefixCalc.Suite.Datum

/-! # What reads as a number

A rule says of each datum which number it is, or why it is none. Cases and suites are read under
any rule; `NumberRule.standard` is the one that the program uses. -/

namespace PrefixCalc
set_option autoImplicit false

/-- Why a datum is no number: because of its type, or because its text does not write one. -/
inductive NumberFault where
  | type
  | parsing
deriving DecidableEq

abbrev NumberRule := Datum → Except NumberFault Binary64

namespace NumberRule

/-- A number, a truth value as one or zero, or a text that writes a number. A whole number
beyond the finite doubles is none. -/
def standard : NumberRule
  | .float v => .ok v
  | .bool b => .ok (.ofNat b.toNat)
  | .int i => if (Binary64.ofInt i).isFinite then .ok (.ofInt i) else .error .type
  | .text t =>
    match Text.fieldNumber? t with
    | some v => .ok v
    | none => .error .parsing
  | _ => .error .type

end NumberRule
end PrefixCalc
