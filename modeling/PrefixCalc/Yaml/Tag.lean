import PrefixCalc.Yaml.Scalar.Timestamp

/-! # Tags

A tag names the type of a node. A plain scalar without a tag has the type that its text
looks like; `Tag.ofPlain` decides which. -/

namespace PrefixCalc.Yaml
set_option autoImplicit false

inductive Tag where
  | null
  | bool
  | int
  | float
  | binary
  | timestamp
  | str
  | seq
  | map
  | set
  | omap
  | pairs
  | merge
  | value
  | other (uri : Text)
deriving DecidableEq

namespace Tag

def commonStart : Text := "tag:yaml.org,2002:".toList

def named : List (String × Tag) :=
  [("null", null), ("bool", bool), ("int", int), ("float", float), ("binary", binary),
    ("timestamp", timestamp), ("str", str), ("seq", seq), ("map", map), ("set", set),
    ("omap", omap), ("pairs", pairs), ("merge", merge), ("value", value)]

def ofUri (uri : Text) : Tag :=
  match named.find? fun e => commonStart ++ e.1.toList == uri with
  | some e => e.2
  | none => other uri

/-! ## What plain scalars look like -/

def isOneOf (words : List String) (t : Text) : Bool := words.any (·.toList == t)

def isNullWord : Text → Bool := isOneOf ["", "~", "null", "Null", "NULL"]

def isBoolWord : Text → Bool :=
  isOneOf ["yes", "Yes", "YES", "no", "No", "NO", "true", "True", "TRUE", "false", "False",
    "FALSE", "on", "On", "ON", "off", "Off", "OFF"]

def dropSign : Text → Text
  | c :: t => if c = '+' ∨ c = '-' then t else c :: t
  | [] => []

/-- Not empty, and all characters have the property. -/
def all1 (p : Char → Bool) (t : Text) : Bool := !t.isEmpty && t.all p

def isDigitOrLine (c : Char) : Bool := c.isDigit || c == '_'

/-- A digit, then digits and underscores. -/
def isGrouped : Text → Bool
  | c :: t => c.isDigit && t.all isDigitOrLine
  | [] => false

/-- Minutes or seconds: one digit, or two of which the first is at most five. -/
def isSixtieth : Text → Bool
  | [c] => c.isDigit
  | [c, d] => '0' ≤ c && c ≤ '5' && d.isDigit
  | _ => false

def splitColons (t : Text) : List Text := t.splitOn ':'

/-- A grouped number, then at least one part after a colon. -/
def isSexagesimal (t : Text) : Bool :=
  match splitColons t with
  | first :: part :: parts => isGrouped first && (part :: parts).all isSixtieth
  | _ => false

def isInt (t : Text) : Bool :=
  match dropSign t with
  | '0' :: 'b' :: d => all1 (fun c => c == '0' || c == '1' || c == '_') d
  | '0' :: 'x' :: d =>
    all1 (fun c => c.isDigit || ('a' ≤ c && c ≤ 'f') || ('A' ≤ c && c ≤ 'F') || c == '_') d
  | '0' :: d => d.all fun c => ('0' ≤ c && c ≤ '7') || c == '_'
  | t => isGrouped t || isSexagesimal t

/-- A signed exponent, or nothing. -/
def isExponent : Text → Bool
  | [] => true
  | e :: s :: d => (e == 'e' || e == 'E') && (s == '+' || s == '-') && all1 Char.isDigit d
  | _ => false

/-- A number with a point: digits and underscores on both sides, the first a digit. -/
def isPointed (signed : Bool) (t : Text) : Bool :=
  let whole := t.takeWhile isDigitOrLine
  match t.dropWhile isDigitOrLine with
  | '.' :: r =>
    let fraction := r.takeWhile isDigitOrLine
    isExponent (r.dropWhile isDigitOrLine)
      && (isGrouped whole || (whole.isEmpty && !signed && isGrouped fraction))
  | _ => false

/-- A sexagesimal number, a point, digits and underscores. -/
def isSexagesimalPointed (t : Text) : Bool :=
  match t.dropWhile (· != '.') with
  | '.' :: fraction => isSexagesimal (t.takeWhile (· != '.')) && fraction.all isDigitOrLine
  | _ => false

def isFloat (t : Text) : Bool :=
  let unsigned := dropSign t
  isPointed (unsigned.length != t.length) unsigned || isSexagesimalPointed unsigned
    || isOneOf [".inf", ".Inf", ".INF"] unsigned || isOneOf [".nan", ".NaN", ".NAN"] t

/-- The type of a plain scalar that has no tag. -/
def ofPlain (t : Text) : Tag :=
  if isBoolWord t then bool
  else if isFloat t then float
  else if isInt t then int
  else if t = "<<".toList then merge
  else if isNullWord t then null
  else if Timestamp.isPlain t then timestamp
  else if t = ['='] then value
  else str

end Tag
end PrefixCalc.Yaml
