import PrefixCalc.Yaml.Input

/-! # Tokens

The tokens of a document tell its structure: collections outside brackets are bounded by
start and end tokens that stand for changes of indentation. -/

namespace PrefixCalc.Yaml
set_option autoImplicit false

structure TagName where
  handle : Option Text
  suffix : Text
deriving DecidableEq

inductive Directive where
  | version (major : Nat)
  | tag (handle tagStart : Text)
  | reserved
deriving DecidableEq

inductive Token where
  | directive (d : Directive)
  | documentStart
  | documentEnd
  | streamEnd
  | blockSequenceStart
  | blockMappingStart
  | blockEnd
  | flowSequenceStart
  | flowSequenceEnd
  | flowMappingStart
  | flowMappingEnd
  | blockEntry
  | flowEntry
  | key
  | value
  | reference (name : Text)
  | anchor (name : Text)
  | tag (name : TagName)
  | scalar (text : Text) (plain : Bool)
deriving DecidableEq

/-! ## Names -/

/-- A character of the name of an anchor, a directive or a tag handle. -/
def isNameChar (c : Char) : Bool :=
  c.isDigit || ('A' ≤ c && c ≤ 'Z') || ('a' ≤ c && c ≤ 'z') || c == '-' || c == '_'

def anchorName (i : Input) : Result (Text × Input) :=
  let (name, j) := i.forward.takeWhile isNameChar
  let ends : Bool := match j.peek with
    | some c => isGap (some c) || "?:,]\x7d%@".toList.contains c || c.toNat == 0x60
    | none => true
  if name ≠ [] ∧ ends = true then .ok (name, j) else fail

def isTagChar (c : Char) : Bool :=
  isNameChar c || ";/?:@&=+$,.!~*'()[]".toList.contains c

namespace TagName

/-- The bytes of the percent escapes at the start of the text, and what follows them. -/
def escapedBytes : Text → Result (List UInt8 × Text)
  | '%' :: a :: b :: t =>
    if isHexDigit a && isHexDigit b then do
      let (bytes, rest) ← escapedBytes t
      .ok (UInt8.ofNat (16 * hexDigit a + hexDigit b) :: bytes, rest)
    else fail
  | '%' :: _ => fail
  | t => .ok ([], t)

/-- Tag characters and percent escapes from here on; the fuel bounds their number. -/
def uri : Nat → Text → Result Text
  | 0, _ => .ok []
  | fuel + 1, t =>
    match t with
    | [] => .ok []
    | c :: r =>
      if c = '%' then do
        let (bytes, rest) ← escapedBytes (c :: r)
        match String.fromUTF8? ⟨bytes.toArray⟩ with
        | some s => .ok (s.toList ++ (← uri fuel rest))
        | none => fail
      else if isTagChar c then do .ok (c :: (← uri fuel r))
      else .ok []

/-- The rest of a tag, which must not be empty. -/
def suffixAt (i : Input) : Result (Text × Input) := do
  let (written, j) := i.takeWhile fun c => isTagChar c || c == '%'
  let t ← uri written.length written
  if t = [] then fail else .ok (t, j)

/-- A handle between exclamation marks, or one mark alone before a space. -/
def handleAt (i : Input) : Result (Text × Input) :=
  if i.peek ≠ some '!' then fail
  else
    let j := i.forward
    if j.peek = some ' ' then .ok (['!'], j)
    else
      let (name, k) := j.takeWhile isNameChar
      if k.peek = some '!' then .ok ('!' :: (name ++ ['!']), k.forward) else fail

/-- The tag that starts here has a handle with a second mark. -/
def hasHandle (i : Input) : Bool :=
  (i.forward.rest.takeWhile fun c => !isLineEndOrSpace (some c)).contains '!'

/-- The tag that starts here with its mark. -/
def scan (i : Input) : Result (TagName × Input) := do
  let (name, j) : TagName × Input ←
    if i.peekAt 1 = some '<' then do
      let (suffix, j) ← suffixAt (i.forwardBy 2)
      if j.peek = some '>' then .ok (⟨none, suffix⟩, j.forward) else fail
    else if isGap (i.peekAt 1) then .ok (⟨none, ['!']⟩, i.forward)
    else do
      let (handle, j) ← if hasHandle i then handleAt i else .ok (['!'], i.forward)
      let (suffix, k) ← suffixAt j
      .ok (⟨some handle, suffix⟩, k)
  if isLineEndOrSpace j.peek then .ok (name, j) else fail

end TagName

namespace Directive

def number (i : Input) : Result (Nat × Input) :=
  let (digits, j) := i.takeWhile Char.isDigit
  if digits = [] then fail
  else .ok (digits.foldl (fun n c => 10 * n + (c.toNat - 48)) 0, j)

def version? (i : Input) : Result (Directive × Input) := do
  let (major, j) ← number i.skipSpaces
  if j.peek ≠ some '.' then fail
  let (_, k) ← number j.forward
  if isLineEndOrSpace k.peek then .ok (.version major, k) else fail

def tag? (i : Input) : Result (Directive × Input) := do
  let (handle, j) ← TagName.handleAt i.skipSpaces
  if j.peek ≠ some ' ' then fail
  let (start, k) ← TagName.suffixAt j.skipSpaces
  if isLineEndOrSpace k.peek then .ok (.tag handle start, k) else fail

/-- The directive that starts here with its mark, and the line after it. -/
def scan (i : Input) : Result (Directive × Input) := do
  let (name, j) := i.forward.takeWhile isNameChar
  if name = [] ∨ !isLineEndOrSpace j.peek then fail
  let (d, k) ←
    if name = "YAML".toList then version? j
    else if name = "TAG".toList then tag? j
    else .ok (.reserved, j.skipWhile (!isBreak ·))
  .ok (d, ← k.endLine)

end Directive

end PrefixCalc.Yaml
