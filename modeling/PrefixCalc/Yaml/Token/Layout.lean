import PrefixCalc.Yaml.Token.Basic
import PrefixCalc.Yaml.Scalar.Quoted
import PrefixCalc.Yaml.Scalar.Plain
import PrefixCalc.Yaml.Scalar.Block

/-! # Layout

A colon makes a key of what stands before it on its line. A word that may turn out to be a
key is therefore remembered with its place among the tokens, one for each depth of brackets,
and the key token is put there when the colon comes. -/

namespace PrefixCalc.Yaml
set_option autoImplicit false

/-- A place that may turn out to be the start of a key. -/
structure KeyPlace where
  token : Nat
  /-- A key must follow: the place is where a new entry of the innermost block starts. -/
  required : Bool
  index : Nat
  line : Nat
  column : Nat
deriving DecidableEq

structure Layout where
  input : Input
  tokens : Array Token
  /-- The column of the innermost block, or -1 outside all blocks. -/
  indent : Int
  outer : List Int
  /-- The depth of open brackets. -/
  depth : Nat
  keyAllowed : Bool
  /-- The places of possible keys with their depths. -/
  places : List (Nat × KeyPlace)

namespace Layout

def ofText (t : Text) : Layout := ⟨.ofText t, #[], -1, [], 0, true, []⟩

def inFlow (s : Layout) : Bool := s.depth != 0

def column (s : Layout) : Int := s.input.column

def push (s : Layout) (t : Token) : Layout := { s with tokens := s.tokens.push t }

def insertAt (s : Layout) (n : Nat) (t : Token) : Layout :=
  { s with tokens := s.tokens.extract 0 n ++ #[t] ++ s.tokens.extract n s.tokens.size }

def place? (s : Layout) : Option KeyPlace := (s.places.find? (·.1 == s.depth)).map (·.2)

/-- No key starts any more at the remembered place of this depth. -/
def dropPlace (s : Layout) : Result Layout :=
  match s.place? with
  | some p =>
    if p.required then fail else .ok { s with places := s.places.filter (·.1 != s.depth) }
  | none => .ok s

/-- The next token may start a key. -/
def savePlace (s : Layout) : Result Layout :=
  if s.keyAllowed then do
    let t ← s.dropPlace
    let p : KeyPlace := ⟨t.tokens.size, !t.inFlow && decide (t.indent = t.column), t.input.index,
      t.input.line, t.input.column⟩
    .ok { t with places := (t.depth, p) :: t.places }
  else .ok s

/-- A key stays on one line and is no longer than 1024 characters. -/
def isStale (s : Layout) (p : KeyPlace) : Bool :=
  p.line != s.input.line || decide (1024 < s.input.index - p.index)

def dropStale (s : Layout) : Result Layout :=
  if s.places.any fun p => s.isStale p.2 && p.2.required then fail
  else .ok { s with places := s.places.filter fun p => !s.isStale p.2 }

/-- The blocks that are indented deeper than the column end. -/
def unwindTo (column : Int) : List Int → Int → Array Token → Int × List Int × Array Token
  | [], indent, ts => (indent, [], ts)
  | o :: outer, indent, ts =>
    if column < indent then unwindTo column outer o (ts.push .blockEnd)
    else (indent, o :: outer, ts)

def unwind (s : Layout) (column : Int) : Layout :=
  if s.inFlow then s
  else
    let (indent, outer, tokens) := unwindTo column s.outer s.indent s.tokens
    { s with indent, outer, tokens }

/-- A block starts at the column unless it is the current one. -/
def opensBlock (s : Layout) (column : Int) : Bool := decide (s.indent < column)

def openBlock (s : Layout) (column : Int) : Layout :=
  { s with indent := column, outer := s.indent :: s.outer }

/-- Spaces, comments and line ends before a token; outside brackets a key may start a line. -/
def skipToToken : Nat → Layout → Layout
  | 0, s => s
  | fuel + 1, s =>
    let i := s.input.skipSpaces.skipComment
    match i.lineBreak? with
    | some (_, j) => skipToToken fuel { s with input := j, keyAllowed := s.keyAllowed || !s.inFlow }
    | none => { s with input := i }

/-- One token of the given number of characters. -/
def advance (s : Layout) (n : Nat) (t : Token) : Layout :=
  { s with input := s.input.forwardBy n, tokens := s.tokens.push t }

/-- A mark at the start of a line ends all blocks. -/
def closeBlocks (s : Layout) : Result Layout := do
  let s ← (s.unwind (-1)).dropPlace
  .ok { s with keyAllowed := false }

def fetchEnd (s : Layout) : Result Layout := do
  .ok ((← s.closeBlocks).push .streamEnd)

def fetchDirective (s : Layout) : Result Layout := do
  let s ← s.closeBlocks
  let (d, i) ← Directive.scan s.input
  .ok { s with input := i, tokens := s.tokens.push (.directive d) }

def fetchMarker (s : Layout) (t : Token) : Result Layout := do
  .ok ((← s.closeBlocks).advance 3 t)

def fetchFlowStart (s : Layout) (t : Token) : Result Layout := do
  let s ← s.savePlace
  .ok ({ s with depth := s.depth + 1, keyAllowed := true }.advance 1 t)

def fetchFlowEnd (s : Layout) (t : Token) : Result Layout := do
  if !s.inFlow then fail
  let s ← s.dropPlace
  .ok ({ s with depth := s.depth - 1, keyAllowed := false }.advance 1 t)

def fetchFlowEntry (s : Layout) : Result Layout := do
  let s ← { s with keyAllowed := true }.dropPlace
  .ok (s.advance 1 .flowEntry)

/-- The layout after the start of a block at its column, if a block starts there. -/
def ensureBlock (s : Layout) (t : Token) : Layout :=
  if s.opensBlock s.column then (s.openBlock s.column).push t else s

def fetchBlockEntry (s : Layout) : Result Layout := do
  if !s.inFlow && !s.keyAllowed then fail
  let s := if s.inFlow then s else s.ensureBlock .blockSequenceStart
  let s ← { s with keyAllowed := true }.dropPlace
  .ok (s.advance 1 .blockEntry)

def fetchKey (s : Layout) : Result Layout := do
  if !s.inFlow && !s.keyAllowed then fail
  let s := if s.inFlow then s else s.ensureBlock .blockMappingStart
  let s ← { s with keyAllowed := !s.inFlow }.dropPlace
  .ok (s.advance 1 .key)

/-- The key token goes before what was remembered, and a new block before the key. -/
def fetchValue (s : Layout) : Result Layout :=
  match s.place? with
  | some p =>
    let s := { s with places := s.places.filter (·.1 != s.depth), keyAllowed := false }.insertAt
      p.token .key
    let s := if !s.inFlow && s.opensBlock p.column then
        (s.openBlock p.column).insertAt p.token .blockMappingStart
      else s
    .ok (s.advance 1 .value)
  | none => do
    if !s.inFlow && !s.keyAllowed then fail
    let s := if s.inFlow then s else s.ensureBlock .blockMappingStart
    let s ← { s with keyAllowed := !s.inFlow }.dropPlace
    .ok (s.advance 1 .value)

/-- A token that may start a key, read by the given function. -/
def fetchWord (s : Layout) (read : Input → Result (Token × Input)) : Result Layout := do
  let s ← s.savePlace
  let (t, i) ← read s.input
  .ok { s with input := i, tokens := s.tokens.push t, keyAllowed := false }

def fetchBlockScalar (s : Layout) (folded : Bool) : Result Layout := do
  let s ← { s with keyAllowed := true }.dropPlace
  let (t, i) ← blockScalar folded s.indent s.input
  .ok { s with input := i, tokens := s.tokens.push (.scalar t false) }

def fetchPlain (s : Layout) : Result Layout := do
  let s ← s.savePlace
  let (t, broken, i) := plainScalar s.inFlow (s.indent + 1) s.input
  .ok { s with input := i, tokens := s.tokens.push (.scalar t true), keyAllowed := broken }

/-- The character may start a plain scalar. -/
def startsPlain (s : Layout) (c : Char) : Bool :=
  let next := s.input.peekAt 1
  !(isGap (some c) || "-?:,[]\x7b\x7d#&*!|>'\"%@".toList.contains c || c.toNat == 0x60)
    || (!isGap next && (c == '-' || (!s.inFlow && (c == '?' || c == ':'))))

/-- The next token starts with this character. -/
def fetchAt (s : Layout) (c : Char) : Result Layout :=
  let i := s.input
  let gapNext := isGap (i.peekAt 1)
  if c = '%' ∧ i.column = 0 then s.fetchDirective
  else if i.column = 0 ∧ i.atMarker '-' then s.fetchMarker .documentStart
  else if i.column = 0 ∧ i.atMarker '.' then s.fetchMarker .documentEnd
  else if c = '[' then s.fetchFlowStart .flowSequenceStart
  else if c = '{' then s.fetchFlowStart .flowMappingStart
  else if c = ']' then s.fetchFlowEnd .flowSequenceEnd
  else if c = '}' then s.fetchFlowEnd .flowMappingEnd
  else if c = ',' then s.fetchFlowEntry
  else if c = '-' ∧ gapNext then s.fetchBlockEntry
  else if c = '?' ∧ (s.inFlow ∨ gapNext) then s.fetchKey
  else if c = ':' ∧ (s.inFlow ∨ gapNext) then s.fetchValue
  else if c = '*' then s.fetchWord fun i => (anchorName i).map fun r => (.reference r.1, r.2)
  else if c = '&' then s.fetchWord fun i => (anchorName i).map fun r => (.anchor r.1, r.2)
  else if c = '!' then s.fetchWord fun i => (TagName.scan i).map fun r => (.tag r.1, r.2)
  else if c = '|' ∧ !s.inFlow then s.fetchBlockScalar false
  else if c = '>' ∧ !s.inFlow then s.fetchBlockScalar true
  else if c = '\'' ∨ c = '"' then
    s.fetchWord fun i => (quotedScalar c i).map fun r => (.scalar r.1 false, r.2)
  else if s.startsPlain c then s.fetchPlain
  else fail

/-- The tokens from here on; each takes at least one character, which bounds the fuel. -/
def scan : Nat → Layout → Result (Array Token)
  | 0, _ => fail
  | fuel + 1, s => do
    let s ← (skipToToken (s.input.rest.length + 1) s).dropStale
    let s := s.unwind s.column
    match s.input.peek with
    | none => do .ok (← s.fetchEnd).tokens
    | some c => do scan fuel (← s.fetchAt c)

end Layout

def tokens (t : Text) : Result (List Token) :=
  if t.all isAllowed then
    ((Layout.ofText t).scan (t.length + 1)).map Array.toList
  else fail

end PrefixCalc.Yaml
