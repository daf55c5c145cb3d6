import PrefixCalc.Yaml.Tag
import PrefixCalc.Yaml.Token.Basic

/-! # Nodes

A node is a scalar, a sequence or a mapping with its tag. References to anchors are replaced
by the nodes that they name. A node that refers to itself from inside is unfolded a few times;
beyond that it has a loop there. -/

namespace PrefixCalc.Yaml
set_option autoImplicit false

inductive Node where
  | scalar (tag : Tag) (text : Text)
  | sequence (tag : Tag) (items : List Node)
  | mapping (tag : Tag) (pairs : List (Node × Node))
  /-- A reference to the node of this name from inside itself. -/
  | loop (name : Text)

namespace Node

instance : Inhabited Node := ⟨loop []⟩

def tag : Node → Tag
  | scalar t _ => t
  | sequence t _ => t
  | mapping t _ => t
  | loop _ => .other []

def absent : Node := scalar .null []

/-! ## Loops -/

mutual

/-- The node with another one in place of its loops of the name. -/
def replaceLoop (name : Text) (whole : Node) : Node → Node
  | scalar t s => scalar t s
  | sequence t ns => sequence t (replaceItems name whole ns)
  | mapping t ps => mapping t (replacePairs name whole ps)
  | loop m => if m = name then whole else loop m

def replaceItems (name : Text) (whole : Node) : List Node → List Node
  | [] => []
  | n :: ns => replaceLoop name whole n :: replaceItems name whole ns

def replacePairs (name : Text) (whole : Node) : List (Node × Node) → List (Node × Node)
  | [] => []
  | (k, v) :: ps =>
    (replaceLoop name whole k, replaceLoop name whole v) :: replacePairs name whole ps

end

/-- The node of this name with its loops replaced by itself, so many times over. -/
def unfold (name : Text) (n : Node) : Nat → Node
  | 0 => n
  | rounds + 1 => n.replaceLoop name (n.unfold name rounds)

/-- A suite is read four levels deep: more rounds would show nothing new. -/
def unfoldRounds : Nat := 4

end Node

/-- The tokens still to read, and the nodes named so far; a node whose end has not been
reached has no value yet. -/
structure Reading where
  tokens : List Token
  anchors : List (Text × Option Node)

abbrev Build := StateT Reading Result

namespace Build

def peek : Build (Option Token) := do return (← get).tokens.head?

def drop : Build PUnit := modify fun r => { r with tokens := r.tokens.drop 1 }

def refuse {α : Type} : Build α := throw .malformed

def sees (ts : List Token) : Build Bool := do
  return match ← peek with
    | some t => ts.contains t
    | none => false

def expect (t : Token) : Build PUnit := do
  if ← sees [t] then drop else refuse

def accept (t : Token) : Build Bool := do
  if ← sees [t] then
    drop
    return true
  else return false

/-- What stands before a node: its anchor and its tag, in either order. -/
structure Properties where
  anchor : Option Text
  tag : Option TagName

def properties : Build Properties := do
  match ← peek with
  | some (.anchor a) =>
    drop
    match ← peek with
    | some (.tag t) =>
      drop
      return ⟨some a, some t⟩
    | _ => return ⟨some a, none⟩
  | some (.tag t) =>
    drop
    match ← peek with
    | some (.anchor a) =>
      drop
      return ⟨some a, some t⟩
    | _ => return ⟨none, some t⟩
  | _ => return ⟨none, none⟩

/-- The full name of a tag, or `none` for no tag. -/
def fullTag (handles : List (Text × Text)) : Option TagName → Build (Option Text)
  | none => return none
  | some ⟨none, suffix⟩ => return some suffix
  | some ⟨some handle, suffix⟩ =>
    match handles.find? (·.1 == handle) with
    | some h => return some (h.2 ++ suffix)
    | none => refuse

/-- The tag of a collection; a lone mark stands for the usual one. -/
def collectionTag (usual : Tag) : Option Text → Tag
  | none => usual
  | some uri => if uri = ['!'] then usual else .ofUri uri

/-- The tag of a scalar; a lone mark lets the text decide even if it is quoted. -/
def scalarTag (plain : Bool) (text : Text) : Option Text → Tag
  | none => if plain then .ofPlain text else .str
  | some uri => if uri = ['!'] then .ofPlain text else .ofUri uri

/-- A name for a node that starts here, which must be new. -/
def openAnchor : Option Text → Build PUnit
  | none => return
  | some a => do
    if (← get).anchors.any (·.1 == a) then refuse
    else modify fun r => { r with anchors := (a, none) :: r.anchors }

/-- The node of the name is complete, also where other nodes hold it. -/
def closeAnchor (name : Option Text) (n : Node) : Build Node := do
  match name with
  | none => return n
  | some a =>
    let whole := n.unfold a Node.unfoldRounds
    let others := (← get).anchors.filter (·.1 != a)
    modify fun r =>
      { r with anchors := (a, some whole) :: others.map fun e =>
          (e.1, e.2.map (Node.replaceLoop a whole)) }
    return whole

def dereference (name : Text) : Build Node := do
  match (← get).anchors.find? (·.1 == name) with
  | some (_, some n) => return n
  | some (_, none) => return .loop name
  | none => refuse

mutual

/-- A node. Outside brackets it may be a block; the value of a mapping may be a sequence
without indentation of its own. -/
def node (handles : List (Text × Text)) (block indentless : Bool) : Nat → Build Node
  | 0 => refuse
  | fuel + 1 => do
    match ← peek with
    | some (.reference name) =>
      drop
      dereference name
    | _ =>
      let p ← properties
      let tag ← fullTag handles p.tag
      openAnchor p.anchor
      let n ← match ← peek with
        | some .blockEntry =>
          if indentless then
            pure (.sequence (collectionTag .seq tag) (← indentlessItems handles fuel))
          else content p tag
        | some (.scalar text plain) =>
          drop
          pure (.scalar (scalarTag plain text tag) text)
        | some .flowSequenceStart =>
          drop
          pure (.sequence (collectionTag .seq tag) (← flowItems handles true fuel))
        | some .flowMappingStart =>
          drop
          pure (.mapping (collectionTag .map tag) (← flowPairs handles true fuel))
        | some .blockSequenceStart =>
          if block then
            drop
            pure (.sequence (collectionTag .seq tag) (← blockItems handles fuel))
          else content p tag
        | some .blockMappingStart =>
          if block then
            drop
            pure (.mapping (collectionTag .map tag) (← blockPairs handles fuel))
          else content p tag
        | _ => content p tag
      closeAnchor p.anchor n

/-- Nothing follows what stands before a node: an empty scalar. -/
def content (p : Properties) (tag : Option Text) : Build Node :=
  if p.anchor.isSome || p.tag.isSome then
    return .scalar (scalarTag (tag == none) [] tag) []
  else refuse

def blockItems (handles : List (Text × Text)) : Nat → Build (List Node)
  | 0 => refuse
  | fuel + 1 => do
    if ← accept .blockEntry then
      let n ← if ← sees [.blockEntry, .blockEnd] then pure .absent
        else node handles true false fuel
      return n :: (← blockItems handles fuel)
    else
      expect .blockEnd
      return []

def indentlessItems (handles : List (Text × Text)) : Nat → Build (List Node)
  | 0 => refuse
  | fuel + 1 => do
    if ← accept .blockEntry then
      let n ← if ← sees [.blockEntry, .key, .value, .blockEnd] then pure .absent
        else node handles true false fuel
      return n :: (← indentlessItems handles fuel)
    else return []

def blockPairs (handles : List (Text × Text)) : Nat → Build (List (Node × Node))
  | 0 => refuse
  | fuel + 1 => do
    if ← accept .key then
      let k ← if ← sees [.key, .value, .blockEnd] then pure .absent
        else node handles true true fuel
      let v ← if ← accept .value then
          if ← sees [.key, .value, .blockEnd] then pure .absent
          else node handles true true fuel
        else pure .absent
      return (k, v) :: (← blockPairs handles fuel)
    else
      expect .blockEnd
      return []

/-- The key and the value of an entry between brackets, up to a comma or the end. -/
def flowPair (handles : List (Text × Text)) (close : Token) : Nat → Build (Node × Node)
  | 0 => refuse
  | fuel + 1 => do
    let k ← if ← sees [.value, .flowEntry, close] then pure .absent
      else node handles false false fuel
    let v ← if ← accept .value then
        if ← sees [.flowEntry, close] then pure .absent
        else node handles false false fuel
      else pure .absent
    return (k, v)

def flowItems (handles : List (Text × Text)) (first : Bool) : Nat → Build (List Node)
  | 0 => refuse
  | fuel + 1 => do
    if ← accept .flowSequenceEnd then return []
    else
      if !first then expect .flowEntry
      if ← accept .key then
        let p ← flowPair handles .flowSequenceEnd fuel
        return .mapping .map [p] :: (← flowItems handles false fuel)
      else if ← accept .flowSequenceEnd then return []
      else
        let n ← node handles false false fuel
        return n :: (← flowItems handles false fuel)

def flowPairs (handles : List (Text × Text)) (first : Bool) : Nat → Build (List (Node × Node))
  | 0 => refuse
  | fuel + 1 => do
    if ← accept .flowMappingEnd then return []
    else
      if !first then expect .flowEntry
      if ← accept .key then
        let p ← flowPair handles .flowMappingEnd fuel
        return p :: (← flowPairs handles false fuel)
      else if ← accept .flowMappingEnd then return []
      else
        let k ← node handles false false fuel
        return (k, .absent) :: (← flowPairs handles false fuel)

end

/-! ## Documents -/

def usualHandles : List (Text × Text) :=
  [(['!'], ['!']), (['!', '!'], Tag.commonStart)]

/-- The handles that the directives before a document declare. -/
def directives (versioned : Bool) (handles : List (Text × Text)) :
    Nat → Build (List (Text × Text))
  | 0 => refuse
  | fuel + 1 => do
    match ← peek with
    | some (.directive d) =>
      drop
      match d with
      | .version major =>
        if versioned || major != 1 then refuse else directives true handles fuel
      | .tag handle start =>
        if handles.any (·.1 == handle) then refuse
        else directives versioned (handles ++ [(handle, start)]) fuel
      | .reserved => directives versioned handles fuel
    | _ => return handles ++ usualHandles

def isDocumentEdge : Option Token → Bool
  | some (.directive _) | some .documentStart | some .documentEnd | some .streamEnd => true
  | _ => false

/-- Past any number of end marks. -/
def dropEndMarks : Build PUnit :=
  modify fun r => { r with tokens := r.tokens.dropWhile (· == .documentEnd) }

/-- The one document that the tokens hold, if they hold any. -/
def document (fuel : Nat) : Build (Option Node) := do
  let n ← match ← peek with
    | some .streamEnd => return none
    | some (.directive _) | some .documentStart =>
      let handles ← directives false [] fuel
      expect .documentStart
      if isDocumentEdge (← peek) then pure .absent else node handles true false fuel
    | _ => node usualHandles true false fuel
  dropEndMarks
  expect .streamEnd
  return some n

end Build

/-- The node of a document of these tokens, if it is not empty. -/
def Node.ofTokens (ts : List Token) : Result (Option Node) :=
  ((Build.document (4 * ts.length + 4)).run ⟨ts, []⟩).map (·.1)

end PrefixCalc.Yaml
