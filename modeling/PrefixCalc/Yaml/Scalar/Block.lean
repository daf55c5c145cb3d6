import PrefixCalc.Yaml.Input

/-! # Block scalars

A block scalar holds the indented lines below its header, either as they are or folded. The
header may fix the indentation and say what becomes of the line ends after the last line. -/

namespace PrefixCalc.Yaml
set_option autoImplicit false

namespace Block

/-- What becomes of the line ends after the last line: one stays, none or all. -/
inductive Chomping where
  | clip
  | strip
  | keep
deriving DecidableEq

structure Header where
  chomping : Chomping
  indentation : Option Nat
deriving DecidableEq

def chomping? : Option Char → Option Chomping
  | some '+' => some .keep
  | some '-' => some .strip
  | _ => none

/-- An indentation is one digit other than zero. -/
def indentation? : Option Char → Result (Option Nat)
  | some c => if c.isDigit then (if c = '0' then fail else .ok (some (c.toNat - 48))) else .ok none
  | none => .ok none

/-- The header's two marks in either order. -/
def header (i : Input) : Result (Header × Input) := do
  match chomping? i.peek with
  | some chomping =>
    let j := i.forward
    match ← indentation? j.peek with
    | some n => .ok (⟨chomping, some n⟩, j.forward)
    | none => .ok (⟨chomping, none⟩, j)
  | none =>
    match ← indentation? i.peek with
    | some n =>
      let j := i.forward
      match chomping? j.peek with
      | some chomping => .ok (⟨chomping, some n⟩, j.forward)
      | none => .ok (⟨.clip, some n⟩, j)
    | none => .ok (⟨.clip, none⟩, i)

/-- The line ends of blank lines, the greatest column reached by their spaces, and the first
character that is neither. -/
def leadingBlanks : Nat → Nat → Input → Text × Nat × Input
  | 0, widest, i => ([], widest, i)
  | fuel + 1, widest, i =>
    if i.peek = some ' ' then leadingBlanks fuel (max widest i.forward.column) i.forward
    else match i.lineBreak? with
      | some (c, j) =>
        let (cs, widest, k) := leadingBlanks fuel widest j
        (c :: cs, widest, k)
      | none => ([], widest, i)

def skipIndent : Nat → Nat → Input → Input
  | 0, _, i => i
  | fuel + 1, indent, i =>
    if i.column < indent ∧ i.peek = some ' ' then skipIndent fuel indent i.forward else i

/-- The line ends of blank lines, each with at most the indentation, and the line after. -/
def blankLines : Nat → Nat → Input → Text × Input
  | 0, _, i => ([], i)
  | fuel + 1, indent, i =>
    let i := skipIndent indent indent i
    match i.lineBreak? with
    | some (c, j) =>
      let (cs, k) := blankLines fuel indent j
      (c :: cs, k)
    | none => ([], i)

def startsBlank (i : Input) : Bool := i.peek == some ' ' || i.peek == some '\t'

/-- The lines of the scalar from here on, then the last line's end, the line ends after it,
and what follows. -/
def lines (folded : Bool) (indent : Nat) : Nat → Text → Input → Text × Text × Text × Input
  | 0, breaks, i => ([], [], breaks, i)
  | fuel + 1, breaks, i =>
    let solid := !startsBlank i
    let (line, j) := i.takeWhile (!isBreak ·)
    let (lineEnd, j) : Text × Input := match j.lineBreak? with
      | some (c, k) => ([c], k)
      | none => ([], j)
    let (after, k) := blankLines fuel indent j
    if k.column = indent ∧ k.peek ≠ none then
      let joint : Text :=
        if folded && lineEnd == ['\n'] && solid && !startsBlank k then
          if after = [] then [' '] else []
        else lineEnd
      let (rest, last, tail, l) := lines folded indent fuel after k
      (breaks ++ line ++ joint ++ rest, last, tail, l)
    else (breaks ++ line, lineEnd, after, k)

end Block

/-- The block scalar whose header starts here with its mark. The node around it is indented
by `outer` columns, or by none if that is negative. -/
def blockScalar (folded : Bool) (outer : Int) (i : Input) : Result (Text × Input) := do
  let (header, i) ← Block.header i.forward
  if !isLineEndOrSpace i.peek then fail
  let i ← i.endLine
  let least := max 1 (outer + 1).toNat
  let fuel := i.rest.length + 1
  let (breaks, indent, i) : Text × Nat × Input := match header.indentation with
    | none =>
      let (breaks, widest, j) := Block.leadingBlanks fuel 0 i
      (breaks, max least widest, j)
    | some n =>
      let indent := least + n - 1
      let (breaks, j) := Block.blankLines fuel indent i
      (breaks, indent, j)
  let (text, last, tail, i) : Text × Text × Text × Input :=
    if i.column = indent ∧ i.peek ≠ none then Block.lines folded indent fuel breaks i
    else ([], [], breaks, i)
  match header.chomping with
  | .strip => .ok (text, i)
  | .clip => .ok (text ++ last, i)
  | .keep => .ok (text ++ last ++ tail, i)

end PrefixCalc.Yaml
