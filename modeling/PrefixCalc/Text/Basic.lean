/-! # Text

Text is a list of code points, so that every position, index and length of the library
counts code points. The characters of an expression are blanks, brackets and word
characters, and each character is exactly one of the three. -/

namespace PrefixCalc
set_option autoImplicit false

abbrev Text := List Char

namespace Text

/-- White space of an expression. The separators U+001C to U+001F and the next-line
character U+0085 are word characters; the byte order mark is a blank. -/
def isBlank (c : Char) : Bool :=
  let n := c.toNat
  (9 ≤ n && n ≤ 13) || n == 0x20 || n == 0xA0 || n == 0x1680 || (0x2000 ≤ n && n ≤ 0x200A)
    || n == 0x2028 || n == 0x2029 || n == 0x202F || n == 0x205F || n == 0x3000 || n == 0xFEFF

def isBracket (c : Char) : Bool := c == '(' || c == ')'

def isWord (c : Char) : Bool := !isBlank c && !isBracket c

theorem isBlank_of_isBracket {c : Char} (h : isBracket c = true) : isBlank c = false := by
  simp only [isBracket, Bool.or_eq_true, beq_iff_eq] at h
  rcases h with rfl | rfl <;> decide

theorem isWord_iff {c : Char} : isWord c = true ↔ isBlank c = false ∧ isBracket c = false := by
  simp [isWord]

/-- The pieces with the separator between each two neighbours. -/
def joinWith (sep : Text) : List Text → Text
  | [] => []
  | [t] => t
  | t :: u :: ts => t ++ sep ++ joinWith sep (u :: ts)

@[simp] theorem joinWith_nil (sep : Text) : joinWith sep [] = [] := rfl

@[simp] theorem joinWith_singleton (sep t : Text) : joinWith sep [t] = t := rfl

theorem joinWith_cons_cons (sep t u : Text) (ts : List Text) :
    joinWith sep (t :: u :: ts) = t ++ sep ++ joinWith sep (u :: ts) := rfl

def ofNat (n : Nat) : Text := Nat.toDigits 10 n

def ofInt (i : Int) : Text := if i < 0 then '-' :: ofNat i.natAbs else ofNat i.natAbs

end Text
end PrefixCalc
