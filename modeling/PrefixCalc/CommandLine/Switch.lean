import PrefixCalc.Expr.Basic
import PrefixCalc.Text.DecimalDigit
import PrefixCalc.Text.Quoted

/-! # Switches

A switch is an argument that starts with a hyphen and is no value. A long switch may be
shortened as long as only one switch starts that way, and may bring its value along after an
equals sign. `rolesOf` says for each argument of a list what it is. -/

namespace PrefixCalc.CommandLine
set_option autoImplicit false

inductive Switch where
  | help
  | version
  | verbose
  | value (i : Variable)
  | tolerance
  | json
deriving DecidableEq

/-- What a switch does: it ends the reading, it is there or not, or it gives a number. -/
inductive Switch.Kind where
  | ending
  | flag
  | number
deriving DecidableEq

namespace Switch

def names : Switch → List Text
  | help => ["-h".toList, "--help".toList]
  | version => ["--version".toList]
  | verbose => ["--verbose".toList]
  | value i => ["--".toList ++ i.name]
  | tolerance => ["--tolerance".toList]
  | json => ["--json".toList]

def kind : Switch → Kind
  | help | version => .ending
  | verbose | json => .flag
  | value _ | tolerance => .number

def label (s : Switch) : Text := Text.joinWith ['/'] s.names

end Switch

inductive UsageFault where
  | ambiguous (argument : Text) (names : List Text)
  | ignoredValue (s : Switch) (value : Text)
  | missingValue (s : Switch)
  | notNumber (s : Switch) (text : Text)
  | unknownCommand (name : Text) (known : List Text)
  | missing (name : Text)
  | unrecognized (arguments : List Text)
deriving DecidableEq

namespace UsageFault

def ofSwitch (s : Switch) (what : Text) : Text :=
  "argument ".toList ++ s.label ++ ": ".toList ++ what

def message : UsageFault → Text
  | ambiguous argument names =>
    "ambiguous option: ".toList ++ argument ++ " could match ".toList
      ++ Text.joinWith ", ".toList names
  | ignoredValue s value => ofSwitch s ("ignored explicit argument ".toList ++ value.quoted)
  | missingValue s => ofSwitch s "expected one argument".toList
  | notNumber s text => ofSwitch s ("invalid float value: ".toList ++ text.quoted)
  | unknownCommand name known =>
    "argument command: invalid choice: ".toList ++ name.quoted ++ " (choose from ".toList
      ++ Text.joinWith ", ".toList (known.map Text.quoted) ++ [')']
  | missing name => "the following arguments are required: ".toList ++ name
  | unrecognized arguments =>
    "unrecognized arguments: ".toList ++ Text.joinWith [' '] arguments

end UsageFault

inductive Role where
  | value
  /-- Two hyphens: all that follows are values. -/
  | separator
  /-- A switch under one of its names, with the value that the argument itself gives it. -/
  | switch (s : Switch) (name : Text) (given : Option Text)
  | unknown
deriving DecidableEq

namespace Role

def splitEquals (t : Text) : Text × Option Text :=
  match t.dropWhile (· != '=') with
  | [] => (t, none)
  | _ :: rest => (t.takeWhile (· != '='), some rest)

def isLong (t : Text) : Bool := "--".toList.isPrefixOf t

def namesOf (switches : List Switch) : List (Text × Switch) :=
  switches.flatMap fun s => s.names.map (·, s)

def named? (switches : List Switch) (name : Text) : Option Switch :=
  ((namesOf switches).find? (·.1 == name)).map (·.2)

/-- The name that the argument stands for if it means this one, and the value it gives. -/
def meaning? (argument name : Text) : Option (Option Text) :=
  if isLong argument then
    if (splitEquals argument).1.isPrefixOf name then some (splitEquals argument).2 else none
  else if name = argument.take 2 then some (some (argument.drop 2))
  else if argument.isPrefixOf name then some none
  else none

def meanings (switches : List Switch) (argument : Text) : List (Switch × Text × Option Text) :=
  (namesOf switches).filterMap fun e => (meaning? argument e.1).map fun given => (e.2, e.1, given)

def isDigit (c : Char) : Bool := (Text.digitValue? c).isSome

/-- A hyphen and digits, with digits after a point or without a point. One line end may
follow. -/
def isNegativeNumber (t : Text) : Bool :=
  match if t.getLast? = some '\n' then t.dropLast else t with
  | '-' :: r =>
    match r.dropWhile isDigit with
    | [] => !r.isEmpty
    | '.' :: fraction => !fraction.isEmpty && fraction.all isDigit
    | _ => false
  | _ => false

/-- The switch that the argument names in full, with or without a value. -/
def inFull? (switches : List Switch) (argument : Text) : Option Role :=
  match named? switches argument, splitEquals argument with
  | some s, _ => some (.switch s argument none)
  | none, (name, some v) => (named? switches name).map fun s => .switch s name (some v)
  | none, (_, none) => none

/-- An argument that starts with a hyphen and names no switch. -/
def ofUnnamed (argument : Text) : Role :=
  if isNegativeNumber argument || argument.contains ' ' then .value else .unknown

def ofArgument (switches : List Switch) (argument : Text) : Except UsageFault Role :=
  if argument.head? ≠ some '-' ∨ argument = ['-'] then .ok .value
  else match inFull? switches argument with
    | some r => .ok r
    | none =>
      match meanings switches argument with
      | [] => .ok (ofUnnamed argument)
      | [(s, name, given)] => .ok (.switch s name given)
      | ms => .error (.ambiguous argument (ms.map (·.2.1)))

end Role

def rolesOf (switches : List Switch) : List Text → Except UsageFault (List (Text × Role))
  | [] => .ok []
  | t :: ts =>
    if t = "--".toList then .ok ((t, .separator) :: ts.map (·, .value))
    else
      match Role.ofArgument switches t with
      | .error f => .error f
      | .ok r => (rolesOf switches ts).map ((t, r) :: ·)

end PrefixCalc.CommandLine
