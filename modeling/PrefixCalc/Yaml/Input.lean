import PrefixCalc.Yaml.Error

/-! # Document text

A document is read character by character, with the line and the column of the next
character. Four characters end a line; a byte order mark takes no column. -/

namespace PrefixCalc.Yaml
set_option autoImplicit false

def isBreak (c : Char) : Bool :=
  c == '\n' || c.toNat == 0x85 || c.toNat == 0x2028 || c.toNat == 0x2029

/-- The end of the document, or a character that ends a line. -/
def isLineEnd : Option Char → Bool
  | none => true
  | some c => isBreak c

def isLineEndOrSpace : Option Char → Bool
  | some ' ' => true
  | c => isLineEnd c

/-- The end of the document, or a character that separates words. -/
def isGap : Option Char → Bool
  | some '\t' => true
  | c => isLineEndOrSpace c

/-- A character that may stand in a document. -/
def isAllowed (c : Char) : Bool :=
  let n := c.toNat
  n == 9 || n == 0xA || n == 0xD || (0x20 ≤ n && n ≤ 0x7E) || n == 0x85
    || (0xA0 ≤ n && n ≤ 0xFFFD) || 0x10000 ≤ n

def isHexDigit (c : Char) : Bool :=
  c.isDigit || ('a' ≤ c && c ≤ 'f') || ('A' ≤ c && c ≤ 'F')

def hexDigit (c : Char) : Nat :=
  if c.isDigit then c.toNat - 48
  else if c.toNat < 97 then c.toNat - 55 else c.toNat - 87

/-- The text with every line end of two characters, or of a carriage return, as a line feed. -/
def unifyLines : Text → Text
  | '\r' :: '\n' :: t => '\n' :: unifyLines t
  | '\r' :: t => '\n' :: unifyLines t
  | c :: t => c :: unifyLines t
  | [] => []

structure Input where
  rest : Text
  index : Nat
  line : Nat
  column : Nat
deriving DecidableEq

namespace Input

def byteOrderMark : Char := Char.ofNat 0xFEFF

/-- The document from its start, without a byte order mark there. -/
def ofText : Text → Input
  | c :: t => if c = byteOrderMark then ⟨t, 1, 0, 0⟩ else ⟨c :: t, 0, 0, 0⟩
  | [] => ⟨[], 0, 0, 0⟩

def peek (i : Input) : Option Char := i.rest.head?

def peekAt (i : Input) (n : Nat) : Option Char := i.rest[n]?

def forward (i : Input) : Input :=
  match i.rest with
  | [] => i
  | c :: t =>
    if isBreak c then ⟨t, i.index + 1, i.line + 1, 0⟩
    else ⟨t, i.index + 1, i.line, if c = byteOrderMark then i.column else i.column + 1⟩

def forwardBy : Nat → Input → Input
  | 0, i => i
  | n + 1, i => forwardBy n i.forward

def takeWhile (i : Input) (p : Char → Bool) : Text × Input :=
  let t := i.rest.takeWhile p
  (t, forwardBy t.length i)

def skipWhile (i : Input) (p : Char → Bool) : Input := (i.takeWhile p).2

def skipSpaces (i : Input) : Input := i.skipWhile (· == ' ')

/-- Past a comment that starts here, up to the end of its line. -/
def skipComment (i : Input) : Input :=
  if i.peek = some '#' then i.skipWhile (!isBreak ·) else i

/-- A line end here as it is written in a scalar, and what follows it. -/
def lineBreak? (i : Input) : Option (Char × Input) :=
  match i.peek with
  | some c =>
    if isBreak c then
      some (if c.toNat = 0x2028 ∨ c.toNat = 0x2029 then c else '\n', i.forward)
    else none
  | none => none

/-- Past spaces and a comment at the end of a line, and past its line end. -/
def endLine (i : Input) : Result Input :=
  let i := i.skipSpaces.skipComment
  if isLineEnd i.peek then
    .ok (match i.lineBreak? with | some (_, j) => j | none => i)
  else fail

/-- The line starts with three characters that mark the end or the start of a document. -/
def atMarker (mark : Char) (i : Input) : Bool :=
  i.rest.take 3 == [mark, mark, mark] && isGap (i.peekAt 3)

def atDocumentMarker (i : Input) : Bool := i.atMarker '-' || i.atMarker '.'

end Input

/-- A line end between words and the blank lines after it: one line end alone is a space. -/
def foldLines (first : Char) (others : Text) : Text :=
  if first ≠ '\n' then first :: others
  else if others = [] then [' '] else others

end PrefixCalc.Yaml
