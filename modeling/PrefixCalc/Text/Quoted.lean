import PrefixCalc.Text.Printable

/-! # Quoted text

A quoted text stands between single quotes, or between double quotes if it holds a single
quote and no double one. The backslash, the quote and three controls are written with a
backslash, other characters that are not printable by their number in hexadecimal. -/

namespace PrefixCalc.Text
set_option autoImplicit false

/-- The number in hexadecimal with at least the given number of digits. -/
def hex (width n : Nat) : Text :=
  let digits := Nat.toDigits 16 n
  List.replicate (width - digits.length) '0' ++ digits

def escapeNumber (n : Nat) : Text :=
  if n < 0x100 then '\\' :: 'x' :: hex 2 n
  else if n < 0x10000 then '\\' :: 'u' :: hex 4 n
  else '\\' :: 'U' :: hex 8 n

def quoteChar (quote c : Char) : Text :=
  if c = quote ∨ c = '\\' then ['\\', c]
  else if c = '\t' then ['\\', 't']
  else if c = '\n' then ['\\', 'n']
  else if c = '\r' then ['\\', 'r']
  else if isPrintable c then [c]
  else escapeNumber c.toNat

/-- The quote that stands around the text. -/
def quoteFor (t : Text) : Char := if t.contains '\'' && !t.contains '"' then '"' else '\''

def quoted (t : Text) : Text :=
  let quote := quoteFor t
  quote :: (t.flatMap (quoteChar quote) ++ [quote])

def quotedList (ts : List Text) : Text :=
  '[' :: (joinWith ", ".toList (ts.map quoted) ++ [']'])

end PrefixCalc.Text
