import PrefixCalc.Yaml.Input

/-! # Plain scalars

A plain scalar has no quotes. It ends before a comment, before a colon that is followed by a
gap, and outside brackets before a line that is indented too little. -/

namespace PrefixCalc.Yaml
set_option autoImplicit false

namespace Plain

def isFlowMark (c : Char) : Bool := c == ',' || c == '[' || c == ']' || c == '{' || c == '}'

/-- The colon before this character is part of no word. -/
def endsColon (inFlow : Bool) : Option Char → Bool
  | some c => isGap (some c) || (inFlow && isFlowMark c)
  | none => true

/-- The length of the word at the start of the text. -/
def wordLength (inFlow : Bool) : Text → Nat
  | [] => 0
  | c :: t =>
    if isGap (some c) || (c == ':' && endsColon inFlow t.head?)
        || (inFlow && (isFlowMark c || c == '?')) then 0
    else wordLength inFlow t + 1

/-- What stands between two words: its text in the scalar, whether it holds a line end, and
what follows it. No text means that the scalar ends here. -/
structure Gap where
  text : Text
  broken : Bool
  next : Input

/-- The line ends of blank lines, unless a document marker comes first. -/
def blankLines : Nat → Input → Option Text × Input
  | 0, i => (some [], i)
  | fuel + 1, i =>
    let i := i.skipSpaces
    match i.lineBreak? with
    | none => (some [], i)
    | some (c, j) =>
      if j.atDocumentMarker then (none, j)
      else
        let (cs, k) := blankLines fuel j
        (cs.map (c :: ·), k)

def gap (i : Input) : Gap :=
  let (spaces, j) := i.takeWhile (· == ' ')
  match j.lineBreak? with
  | none => ⟨spaces, false, j⟩
  | some (first, k) =>
    if k.atDocumentMarker then ⟨[], true, k⟩
    else match blankLines k.rest.length k with
      | (some others, l) => ⟨foldLines first others, true, l⟩
      | (none, l) => ⟨[], true, l⟩

/-- The words from here on with the gaps between them, whether the scalar ends at the start
of a line, and what follows. -/
def scan (inFlow : Bool) (indent : Int) : Nat → Text → Bool → Input → Text × Bool × Input
  | 0, _, broken, i => ([], broken, i)
  | fuel + 1, before, broken, i =>
    let n := wordLength inFlow i.rest
    if i.peek = some '#' ∨ n = 0 then ([], broken, i)
    else
      let g := gap (i.forwardBy n)
      let word := before ++ i.rest.take n
      let isOutside := !inFlow && decide ((g.next.column : Int) < indent)
      if g.text = [] ∨ g.next.peek = some '#' ∨ isOutside then
        (word, g.broken, g.next)
      else
        let (rest, broken, j) := scan inFlow indent fuel g.text g.broken g.next
        (word ++ rest, broken, j)

end Plain

/-- The plain scalar that starts here, whether it ends at the start of a line, and what
follows it. -/
def plainScalar (inFlow : Bool) (indent : Int) (i : Input) : Text × Bool × Input :=
  Plain.scan inFlow indent i.rest.length [] false i

end PrefixCalc.Yaml
