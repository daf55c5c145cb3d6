import PrefixCalc.CommandLine.Switch
import PrefixCalc.Number.Input

/-! # Reading arguments

The arguments of a command are read from left to right: switches with their values, and one
operand. What is left over is kept for a complaint. A switch that ends the reading does so at
once, whatever follows. -/

namespace PrefixCalc.CommandLine
set_option autoImplicit false

/-- Why the reading of arguments comes to no result. -/
inductive Stop where
  | fault (f : UsageFault)
  /-- The value of a switch is a lone separator, which counts for nothing. -/
  | valueLost
  | ending (s : Switch)
deriving DecidableEq

structure Reading where
  operand : Option Text
  flags : List Switch
  numbers : List (Switch × Binary64)
  extras : List Text
deriving DecidableEq

namespace Reading

def empty : Reading := ⟨none, [], [], []⟩

def has (r : Reading) (s : Switch) : Bool := r.flags.contains s

def number? (r : Reading) (s : Switch) : Option Binary64 :=
  (r.numbers.reverse.find? (·.1 == s)).map (·.2)

def addFlag (r : Reading) (s : Switch) : Reading := { r with flags := r.flags ++ [s] }

def addExtra (r : Reading) (t : Text) : Reading := { r with extras := r.extras ++ [t] }

def addNumber (r : Reading) (s : Switch) (t : Text) : Except Stop Reading :=
  if t = "--".toList then .error .valueLost
  else match Text.argumentNumber? t with
    | some v => .ok { r with numbers := r.numbers ++ [(s, v)] }
    | none => .error (.fault (.notNumber s t))

/-- Short switches may follow each other in one argument after a single hyphen. -/
def afterShort (switches : List Switch) (s : Switch) : Text → Except Stop PUnit
  | [] => .ok ()
  | c :: t =>
    match Role.named? switches ['-', c] with
    | some next => afterShort switches next t
    | none => .error (.fault (.ignoredValue s (c :: t)))

/-- A switch without a value must not be given one. -/
def refuseValue (switches : List Switch) (s : Switch) (name : Text) :
    Option Text → Except Stop PUnit
  | none => .ok ()
  | some t =>
    if Role.isLong name ∨ t = [] then .error (.fault (.ignoredValue s t))
    else afterShort switches s t

/-- A switch that needs no argument after its own. -/
def takeAlone (switches : List Switch) (r : Reading) (s : Switch) (name : Text)
    (given : Option Text) : Except Stop Reading :=
  match s.kind, given with
  | .number, some t => r.addNumber s t
  | .number, none => .error (.fault (.missingValue s))
  | .ending, given =>
    match refuseValue switches s name given with
    | .ok _ => .error (.ending s)
    | .error stop => .error stop
  | .flag, given => (refuseValue switches s name given).map fun _ => r.addFlag s

/-- The first value is the operand, and takes a separator next to it along. -/
def read (switches : List Switch) (r : Reading) :
    List (Text × Role) → Except Stop Reading
  | [] => .ok r
  | (t, .value) :: (u, .separator) :: rest =>
    match r.operand with
    | none => read switches { r with operand := some t } rest
    | some _ => read switches ((r.addExtra t).addExtra u) rest
  | (t, .value) :: rest =>
    match r.operand with
    | none => read switches { r with operand := some t } rest
    | some _ => read switches (r.addExtra t) rest
  | (u, .separator) :: (t, .value) :: rest =>
    match r.operand with
    | none => read switches { r with operand := some t } rest
    | some _ => read switches ((r.addExtra u).addExtra t) rest
  | (t, .separator) :: rest => read switches (r.addExtra t) rest
  | (t, .unknown) :: rest => read switches (r.addExtra t) rest
  | (_, .switch s name given) :: (t, .value) :: rest =>
    if s.kind = .number ∧ given = none then
      match r.addNumber s t with
      | .ok r => read switches r rest
      | .error stop => .error stop
    else
      match takeAlone switches r s name given with
      | .ok r => read switches r ((t, .value) :: rest)
      | .error stop => .error stop
  | (_, .switch s name given) :: rest =>
    match takeAlone switches r s name given with
    | .ok r => read switches r rest
    | .error stop => .error stop

end Reading

def readArguments (switches : List Switch) (arguments : List Text) : Except Stop Reading :=
  match rolesOf switches arguments with
  | .error f => .error (.fault f)
  | .ok roles => Reading.empty.read switches roles

end PrefixCalc.CommandLine
