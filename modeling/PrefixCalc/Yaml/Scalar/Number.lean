import PrefixCalc.Number.Input
import PrefixCalc.Number.Binary64
import PrefixCalc.Yaml.Error

/-! # Numbers of a document

Underscores in a number count for nothing. A whole number is binary, octal, decimal,
hexadecimal or sexagesimal; a number is decimal, sexagesimal or a special value. A scalar
may be called a number by its tag whatever it looks like, so each form can fail. -/

namespace PrefixCalc.Yaml
set_option autoImplicit false

def digitIn? (base : Nat) (c : Char) : Option Nat :=
  let value := if c.isDigit then some (c.toNat - 48)
    else if 'a' ≤ c.toLower && c.toLower ≤ 'z' then some (c.toLower.toNat - 87) else none
  value.filter (· < base)

/-- The letter after a zero that announces a base. -/
def baseLetter? : Nat → Option Char
  | 2 => some 'b'
  | 8 => some 'o'
  | 16 => some 'x'
  | _ => none

def dropBaseMark (base : Nat) : Text → Text
  | '0' :: c :: t => if baseLetter? base = some c.toLower then t else '0' :: c :: t
  | t => t

/-- More decimal digits than this are not read. -/
def mostDigits : Nat := 4300

/-- A whole number in a base: white space around it, a sign, the mark of the base and
digits of any script. -/
def wholeNumber (base : Nat) (t : Text) : Result Int :=
  let (sign, digits) := Literal.splitSign (Text.trim Text.isSpace (t.map Text.toAsciiDigit))
  let digits := dropBaseMark base digits
  match digits.mapM (digitIn? base) with
  | some (d :: ds) =>
    if base = 10 ∧ mostDigits < digits.length then .error (.scalar (.tooLong digits.length))
    else
      let n : Nat := (d :: ds).foldl (fun n d => base * n + d) 0
      .ok (if sign = some '-' then -(n : Int) else n)
  | _ => .error (.scalar (.notWhole base t))

def dropUnderscores (t : Text) : Text := t.filter (· != '_')

/-- The parts between colons, each read as a number. -/
def sixtieths {α : Type} (read : Text → Result α) (t : Text) : Result (List α) :=
  (t.splitOn ':').mapM read

def isNegative (t : Text) : Bool := t.head? == some '-'

/-- The text without one sign. -/
def unsigned (t : Text) : Text := (Literal.splitSign t).2

def unsignedInt (t : Text) : Result Int :=
  match t with
  | [] => .error (.scalar .blank)
  | ['0'] => .ok 0
  | '0' :: 'b' :: d => wholeNumber 2 d
  | '0' :: 'x' :: d => wholeNumber 16 d
  | '0' :: _ => wholeNumber 8 t
  | t =>
    if t.contains ':' then
      (sixtieths (wholeNumber 10) t).map (·.foldl (fun n part => 60 * n + part) 0)
    else wholeNumber 10 t

def intScalar (text : Text) : Result Int :=
  let t := dropUnderscores text
  if t = [] then .error (.scalar .blank)
  else (unsignedInt (unsigned t)).map fun i => if isNegative t then -i else i

def number (t : Text) : Result Binary64 :=
  match Text.argumentNumber? t with
  | some v => .ok v
  | none => .error (.scalar (.notNumber t))

/-- The parts times their powers of sixty, added from the last one on. -/
def sumSixtieths (parts : List Binary64) : Binary64 :=
  (parts.reverse.foldl
    (fun (sum, base) part => (sum.add (part.mul (.ofNat base)), 60 * base)) (.zero, 1)).1

def unsignedFloat (t : Text) : Result Binary64 :=
  if t = ".inf".toList then .ok (.inf false)
  else if t = ".nan".toList then .ok .nan
  else if t.contains ':' then (sixtieths number t).map sumSixtieths
  else number t

def floatScalar (text : Text) : Result Binary64 :=
  let t := (dropUnderscores text).map Char.toLower
  if t = [] then .error (.scalar .blank)
  else (unsignedFloat (unsigned t)).map fun v => if isNegative t then v.neg else v

def boolScalar (text : Text) : Result Bool :=
  let t := text.map Char.toLower
  if ["yes", "true", "on"].any (·.toList == t) then .ok true
  else if ["no", "false", "off"].any (·.toList == t) then .ok false
  else .error (.scalar (.notWord t))

end PrefixCalc.Yaml
