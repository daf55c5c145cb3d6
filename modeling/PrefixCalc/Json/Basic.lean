import PrefixCalc.Text.Quoted
import PrefixCalc.Number.Format

/-! # Written values

A value is written as indented text, two blanks a level. Only characters from the space to
the tilde stand for themselves; others are written by their 16-bit units. A number that is
not finite has no written form. -/

namespace PrefixCalc
set_option autoImplicit false

inductive Json where
  | bool (b : Bool)
  | count (n : Nat)
  | number (v : Binary64)
  | text (t : Text)
  | list (items : List Json)
  | object (fields : List (Text × Json))

namespace Json

def unitText (n : Nat) : Text := '\\' :: 'u' :: Text.hex 4 n

/-- A character beyond the 16-bit range is two units. -/
def charText (c : Char) : Text :=
  let n := c.toNat
  if c = '"' then ['\\', '"']
  else if c = '\\' then ['\\', '\\']
  else if c = '\n' then ['\\', 'n']
  else if c = '\r' then ['\\', 'r']
  else if c = '\t' then ['\\', 't']
  else if n = 8 then ['\\', 'b']
  else if n = 12 then ['\\', 'f']
  else if 0x20 ≤ n ∧ n < 0x7F then [c]
  else if n < 0x10000 then unitText n
  else unitText (0xD800 + (n - 0x10000) / 0x400) ++ unitText (0xDC00 + (n - 0x10000) % 0x400)

def quoted (t : Text) : Text := '"' :: (t.flatMap charText ++ ['"'])

def newLine (depth : Nat) : Text := '\n' :: List.replicate (2 * depth) ' '

mutual

/-- The written form at a depth, if every number in the value is finite. -/
def write? (depth : Nat) : Json → Option Text
  | bool b => some (if b then "true".toList else "false".toList)
  | count n => some (Text.ofNat n)
  | number v => if v.isFinite then some v.toText else none
  | text t => some (quoted t)
  | list [] => some "[]".toList
  | list (j :: js) => do
    let first ← write? (depth + 1) j
    let rest ← writeItems? (depth + 1) js
    some ('[' :: newLine (depth + 1) ++ first ++ rest ++ newLine depth ++ [']'])
  | object [] => some "\x7b\x7d".toList
  | object ((k, j) :: fields) => do
    let first ← write? (depth + 1) j
    let rest ← writeFields? (depth + 1) fields
    some ('{' :: newLine (depth + 1) ++ quoted k ++ ": ".toList ++ first ++ rest
      ++ newLine depth ++ ['}'])

def writeItems? (depth : Nat) : List Json → Option Text
  | [] => some []
  | j :: js => do
    let first ← write? depth j
    let rest ← writeItems? depth js
    some (',' :: newLine depth ++ first ++ rest)

def writeFields? (depth : Nat) : List (Text × Json) → Option Text
  | [] => some []
  | (k, j) :: fields => do
    let first ← write? depth j
    let rest ← writeFields? depth fields
    some (',' :: newLine depth ++ quoted k ++ ": ".toList ++ first ++ rest)

end

end Json
end PrefixCalc
