import PrefixCalc.Yaml.Error

/-! # Binary scalars

Bytes are written in base 64: four characters of the alphabet for three bytes. Characters
outside the alphabet count for nothing. -/

namespace PrefixCalc.Yaml
set_option autoImplicit false

namespace Base64

def value? (c : Char) : Option Nat :=
  if 'A' ≤ c ∧ c ≤ 'Z' then some (c.toNat - 65)
  else if 'a' ≤ c ∧ c ≤ 'z' then some (c.toNat - 71)
  else if '0' ≤ c ∧ c ≤ '9' then some (c.toNat + 4)
  else if c = '+' then some 62
  else if c = '/' then some 63
  else none

/-- The bytes of the rest of a text. Of the current four characters some have been read;
their bits that are not yet in a byte are left, and the last characters read were so many
fill characters. -/
def decodeFrom (read left fill : Nat) : Text → Option (List UInt8)
  | [] => if read = 0 then some [] else none
  | c :: t =>
    if c = '=' then
      if 2 ≤ read then
        if 4 ≤ read + fill + 1 then some [] else decodeFrom read left (fill + 1) t
      else decodeFrom read left fill t
    else
      match value? c with
      | none => decodeFrom read left fill t
      | some v =>
        match read with
        | 0 => decodeFrom 1 v 0 t
        | 1 => (decodeFrom 2 (v % 16) 0 t).map (UInt8.ofNat (left * 4 + v / 16) :: ·)
        | 2 => (decodeFrom 3 (v % 4) 0 t).map (UInt8.ofNat (left * 16 + v / 4) :: ·)
        | _ => (decodeFrom 0 0 0 t).map (UInt8.ofNat (left * 64 + v) :: ·)

def decode? (t : Text) : Option (List UInt8) := decodeFrom 0 0 0 t

end Base64

/-- The bytes that the text writes, which must be ASCII. -/
def binaryScalar (t : Text) : Result (List UInt8) :=
  if t.all (·.toNat < 128) then
    match Base64.decode? t with
    | some bytes => .ok bytes
    | none => fail
  else fail

end PrefixCalc.Yaml
