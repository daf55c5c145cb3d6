import PrefixCalc.Text.DecimalDigit
import PrefixCalc.Number.Literal

/-! # Numbers outside expressions

In a field or an argument a number may stand between white space, hold single underscores, and
be an infinity or not-a-number by name, in letters of either case. In an argument the underscores
stand between digits, and the digits may be those of any script. In a field they stand anywhere
but at the ends, and there is no white space beside them. -/

namespace PrefixCalc.Text
set_option autoImplicit false

/-- The Unicode property White_Space. -/
def isWhiteSpace (c : Char) : Bool :=
  let n := c.toNat
  (9 ≤ n && n ≤ 13) || n == 0x20 || n == 0x85 || n == 0xA0 || n == 0x1680
    || (0x2000 ≤ n && n ≤ 0x200A) || n == 0x2028 || n == 0x2029 || n == 0x202F || n == 0x205F
    || n == 0x3000

/-- White space around an argument: the separators U+001C to U+001F count as well. -/
def isSpace (c : Char) : Bool := isWhiteSpace c || (0x1C ≤ c.toNat && c.toNat ≤ 0x1F)

def trim (blank : Char → Bool) (t : Text) : Text :=
  ((t.dropWhile blank).reverse.dropWhile blank).reverse

/-- The text without its underscores, each of which stands between two digits. The first
argument says whether the character before the text is a digit. -/
def dropUnderscores? : Bool → Text → Option Text
  | _, [] => some []
  | afterDigit, '_' :: t =>
    if afterDigit && t.head?.any Char.isDigit then dropUnderscores? false t else none
  | _, c :: t => (dropUnderscores? c.isDigit t).map (c :: ·)

/-- The text without its underscores, none of which stands at an end or beside another one. -/
def dropInnerUnderscores? (t : Text) : Option Text :=
  let parts := t.splitOn '_'
  if parts.all (!·.isEmpty) then some parts.flatten else none

def special? (negative : Bool) (name : Text) : Option Binary64 :=
  let name := name.map Char.toLower
  if name = "inf".toList ∨ name = "infinity".toList then some (.inf negative)
  else if name = "nan".toList then some .nan
  else none

/-- A number literal, or a special value with an optional sign. -/
def literalOrSpecial? (t : Text) : Option Binary64 :=
  match toBinary64? t with
  | some v => some v
  | none => special? ((Literal.splitSign t).1 == some '-') (Literal.splitSign t).2

/-- The number that a field of a suite holds as a text. Underscores are dropped only where the
text between its white space is no number, and then from the whole text. -/
def fieldNumber? (t : Text) : Option Binary64 :=
  (literalOrSpecial? (trim isWhiteSpace t)).or
    ((dropInnerUnderscores? t).bind literalOrSpecial?)

/-- The number that an argument of the command line gives. -/
def argumentNumber? (t : Text) : Option Binary64 := do
  literalOrSpecial? (← dropUnderscores? false (trim isSpace (t.map toAsciiDigit)))

end PrefixCalc.Text
