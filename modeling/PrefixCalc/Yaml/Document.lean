import PrefixCalc.Suite.Datum
import PrefixCalc.Yaml.Node
import PrefixCalc.Yaml.Scalar.Binary
import PrefixCalc.Yaml.Scalar.Number
import PrefixCalc.Yaml.Token.Layout

/-! # Documents

`Datum.ofYaml` is the datum that a document holds. A mapping may take in other mappings under
a merge key: their entries come first, and its own entries win over them. Of several errors
in the nodes of a document the one nearest to the root counts, and of those at one depth the
first. -/

namespace PrefixCalc.Yaml
set_option autoImplicit false

/-- An error and the depth at which it was found. -/
structure Finding where
  depth : Nat
  error : Error
deriving DecidableEq

abbrev Search (α : Type) := Except Finding α

namespace Search

variable {α β : Type}

def refuse (depth : Nat) : Search α := .error ⟨depth, .malformed⟩

def ofResult (depth : Nat) (r : Result α) : Search α := r.mapError (⟨depth, ·⟩)

def both : Search α → Search β → Search (α × β)
  | .ok a, .ok b => .ok (a, b)
  | .error e, .ok _ => .error e
  | .ok _, .error f => .error f
  | .error e, .error f => .error (if f.depth < e.depth then f else e)

def cons (a : Search α) (as : Search (List α)) : Search (List α) :=
  (both a as).map fun p => p.1 :: p.2

def append (as bs : Search (List α)) : Search (List α) := (both as bs).map fun p => p.1 ++ p.2

end Search

namespace Node

/-! ## Scalars -/

mutual

/-- The text of a scalar. A mapping stands for the scalar under its default key. -/
def text? : Node → Option Text
  | scalar _ t => some t
  | mapping _ ps => defaultText? ps
  | _ => none

def defaultText? : List (Node × Node) → Option Text
  | [] => none
  | (k, v) :: ps => if k.tag = .value then text? v else defaultText? ps

end

/-- Bytes as a value are a text if they encode one. -/
def ofBytes (bytes : List UInt8) : Datum :=
  match String.fromUTF8? ⟨bytes.toArray⟩ with
  | some s => .text s.toList
  | none => .other []

/-- The datum that a text is for a tag of scalars. -/
def scalarDatum (tag : Tag) (t : Text) : Result Datum :=
  match tag with
  | .null => .ok .null
  | .bool => (boolScalar t).map .bool
  | .int => (intScalar t).map .int
  | .float => (floatScalar t).map .float
  | .str => .ok (.text t)
  | .binary => (binaryScalar t).map ofBytes
  | .timestamp => (timestampScalar t).map .other
  | _ => fail

/-- The tags that ask for a sequence or a mapping. -/
def isCollectionTag : Tag → Bool
  | .seq | .map | .set | .omap | .pairs => true
  | _ => false

/-- A node of the wrong kind for its tag. A collection is entered before it is refused. -/
def mismatch (depth : Nat) (tag : Tag) : Search Datum :=
  .refuse (if isCollectionTag tag then depth + 1 else depth)

def scalarFrom (depth : Nat) (tag : Tag) : Option Text → Search Datum
  | some t =>
    if isCollectionTag tag then mismatch depth tag else .ofResult depth (scalarDatum tag t)
  | none => mismatch depth tag

/-! ## Merge keys -/

mutual

/-- Every merge key has a mapping under it, or a sequence of mappings. -/
def mergesWell : List (Node × Node) → Bool
  | [] => true
  | (k, v) :: ps => (k.tag != .merge || canMerge v) && mergesWell ps

def canMerge : Node → Bool
  | mapping _ ps => mergesWell ps
  | sequence _ ns => canMergeAll ns
  | loop _ => true
  | scalar _ _ => false

def canMergeAll : List Node → Bool
  | [] => true
  | mapping _ ps :: ns => mergesWell ps && canMergeAll ns
  | loop _ :: ns => canMergeAll ns
  | _ => false

end

/-! ## Collections -/

/-- Bytes as a key, which are no text even where they encode one. -/
def bytesKey (encoded : Text) : Datum := .other ('b' :: encoded.quoted)

/-- The datum of a key. Lists and maps are no keys; the default key is its own text. -/
def asKey (depth : Nat) (k : Node) (d : Search Datum) : Search Datum :=
  match k, d with
  | scalar .value t, _ => .ok (.text t)
  | loop _, _ | _, .ok (.list _) | _, .ok (.map _) => .refuse depth
  | k, .ok (.text t) => .ok (if k.tag = .binary then bytesKey t else .text t)
  | _, d => d

/-- The entries in order, each key once with its last value. -/
def collect (entries : List (Datum × Datum)) : List (Datum × Datum) :=
  entries.foldl (fun es e => Datum.put es e.1 e.2) []

mutual

def datum (depth : Nat) : Node → Search Datum
  | loop _ => .ok (.other [])
  | scalar tag t => scalarFrom depth tag (some t)
  | sequence tag ns =>
    match tag with
    | .seq => (items (depth + 1) ns).map .list
    | .omap | .pairs => (pairItems (depth + 1) ns).map .list
    | tag => mismatch depth tag
  | mapping tag ps =>
    match tag with
    | .map =>
      if mergesWell ps then
        (Search.append (merged (depth + 1) ps) (own (depth + 1) ps)).map (.map <| collect ·)
      else .refuse (depth + 1)
    | .set =>
      if mergesWell ps then
        (Search.append (merged (depth + 1) ps) (own (depth + 1) ps)).map fun es =>
          .list ((collect es).map (·.1))
      else .refuse (depth + 1)
    | tag => scalarFrom depth tag (defaultText? ps)

def items (depth : Nat) : List Node → Search (List Datum)
  | [] => .ok []
  | n :: ns => .cons (datum depth n) (items depth ns)

/-- Mappings of one entry each, as lists of a key and a value. -/
def pairItems (depth : Nat) : List Node → Search (List Datum)
  | [] => .ok []
  | mapping _ [(k, v)] :: ns =>
    .cons ((Search.both (datum depth k) (datum depth v)).map fun e => .list [e.1, e.2])
      (pairItems depth ns)
  | _ => .refuse depth

/-- The entries that are not under merge keys. -/
def own (depth : Nat) : List (Node × Node) → Search (List (Datum × Datum))
  | [] => .ok []
  | (k, v) :: ps =>
    if k.tag = .merge then own depth ps
    else .cons (.both (asKey depth k (datum depth k)) (datum depth v)) (own depth ps)

/-- The entries that the merge keys bring in. -/
def merged (depth : Nat) : List (Node × Node) → Search (List (Datum × Datum))
  | [] => .ok []
  | (k, v) :: ps =>
    if k.tag = .merge then .append (mergedFrom depth v) (merged depth ps) else merged depth ps

/-- The entries of a mapping, with those that it takes in before its own. -/
def mergedFrom (depth : Nat) : Node → Search (List (Datum × Datum))
  | mapping _ ps => .append (merged depth ps) (own depth ps)
  | sequence _ ns => mergedItems depth ns
  | _ => .ok []

/-- The entries of several mappings, the last mapping first. -/
def mergedItems (depth : Nat) : List Node → Search (List (Datum × Datum))
  | [] => .ok []
  | n :: ns => .append (mergedItems depth ns) (mergedFrom depth n)

end

end Node
end PrefixCalc.Yaml

namespace PrefixCalc

/-- The datum of a document; an empty document holds null. -/
def Datum.ofYaml (t : Text) : Yaml.Result Datum := do
  match ← Yaml.Node.ofTokens (← Yaml.tokens (Yaml.unifyLines t)) with
  | none => .ok .null
  | some n => (n.datum 0).mapError (·.error)

end PrefixCalc
