import PrefixCalc.Yaml.Input

/-! # Quoted scalars

In single quotes a quote is written twice. In double quotes a backslash starts an escape.
In both, a line end with the blanks around it is folded. -/

namespace PrefixCalc.Yaml
set_option autoImplicit false

namespace Quoted

def hexValue (t : Text) : Nat := t.foldl (fun n c => 16 * n + hexDigit c) 0

/-- The character that an escape of one letter stands for. -/
def escape? (c : Char) : Option Char :=
  match c with
  | '0' => some (Char.ofNat 0)
  | 'a' => some (Char.ofNat 7)
  | 'b' => some (Char.ofNat 8)
  | 't' => some '\t'
  | '\t' => some '\t'
  | 'n' => some '\n'
  | 'v' => some (Char.ofNat 11)
  | 'f' => some (Char.ofNat 12)
  | 'r' => some '\r'
  | 'e' => some (Char.ofNat 27)
  | ' ' => some ' '
  | '"' => some '"'
  | '\\' => some '\\'
  | '/' => some '/'
  | 'N' => some (Char.ofNat 0x85)
  | '_' => some (Char.ofNat 0xA0)
  | 'L' => some (Char.ofNat 0x2028)
  | 'P' => some (Char.ofNat 0x2029)
  | _ => none

/-- The number of hexadecimal digits after a letter that announces a number. -/
def escapeWidth? (c : Char) : Option Nat :=
  match c with
  | 'x' => some 2
  | 'u' => some 4
  | 'U' => some 8
  | _ => none

def charOf (n : Nat) : Result Char :=
  if n.isValidChar then .ok (Char.ofNat n)
  else if n < 0x110000 then .error (.surrogate n)
  else .error (.scalar (.codePoint n))

/-- The line ends of blank lines, up to a character that is no blank. -/
def blankLines : Nat → Input → Result (Text × Input)
  | 0, _ => fail
  | fuel + 1, i =>
    if i.atDocumentMarker then fail
    else
      let i := i.skipWhile fun c => c == ' ' || c == '\t'
      match i.lineBreak? with
      | none => .ok ([], i)
      | some (c, j) => do
        let (cs, k) ← blankLines fuel j
        .ok (c :: cs, k)

/-- The text up to the closing quote, and what follows the quote. -/
def scan (quote : Char) : Nat → Input → Result (Text × Input)
  | 0, _ => fail
  | fuel + 1, i =>
    let emit (t : Text) (j : Input) : Result (Text × Input) := do
      let (rest, k) ← scan quote fuel j
      .ok (t ++ rest, k)
    match i.peek with
    | none => fail
    | some c =>
      if c = quote then
        if quote = '\'' ∧ i.peekAt 1 = some '\'' then emit ['\''] (i.forwardBy 2)
        else .ok ([], i.forward)
      else if c = '\\' ∧ quote = '"' then
        let i := i.forward
        match i.peek with
        | none => fail
        | some e =>
          match escape? e, escapeWidth? e with
          | some r, _ => emit [r] i.forward
          | none, some width => do
            let digits := i.forward.rest.take width
            if digits.length = width ∧ digits.all isHexDigit then
              emit [← charOf (hexValue digits)] (i.forward.forwardBy width)
            else fail
          | none, none =>
            match i.lineBreak? with
            | some (_, j) => do
              let (cs, k) ← blankLines fuel j
              emit cs k
            | none => fail
      else if c = ' ' ∨ c = '\t' ∨ isBreak c then
        let (blanks, j) := i.takeWhile fun c => c == ' ' || c == '\t'
        match j.lineBreak? with
        | some (first, k) => do
          let (others, l) ← blankLines fuel k
          emit (foldLines first others) l
        | none => emit blanks j
      else emit [c] i.forward

end Quoted

/-- The quoted scalar that starts here with its opening quote. -/
def quotedScalar (quote : Char) (i : Input) : Result (Text × Input) :=
  Quoted.scan quote (i.rest.length + 1) i.forward

end PrefixCalc.Yaml
