import PrefixCalc.CommandLine.Reading

/-! # Requests

The first value among the arguments names a command, and what follows it are the arguments of
the command. `Request.ofArguments` reads a request or says why there is none. -/

namespace PrefixCalc.CommandLine
set_option autoImplicit false

inductive CommandName where
  | eval
  | postfixForm
  | prefixForm
  | check
deriving DecidableEq

namespace CommandName

def all : List CommandName := [eval, postfixForm, prefixForm, check]

def name : CommandName → Text
  | eval => "eval".toList
  | postfixForm => "postfix".toList
  | prefixForm => "prefix".toList
  | check => "check".toList

def ofName? (t : Text) : Option CommandName := all.find? (·.name == t)

def operand : CommandName → Text
  | check => "file".toList
  | _ => "expression".toList

def switches : CommandName → List Switch
  | eval => .help :: Variable.all.map .value
  | postfixForm | prefixForm => [.help]
  | check => [.help, .tolerance, .json]

end CommandName

inductive Command where
  | eval (expression : Text) (point : Point)
  | postfixForm (expression : Text)
  | prefixForm (expression : Text)
  | check (path : Text) (tolerance : Option Binary64) (asJson : Bool)
deriving DecidableEq

inductive Request where
  | help
  | version
  | run (verbose : Bool) (command : Command)
deriving DecidableEq

/-- Arguments that are no request. -/
inductive Refusal where
  | usage (program : Text) (fault : UsageFault)
  | valueLost
deriving DecidableEq

namespace Refusal

def message : Refusal → Text
  | usage program fault => program ++ ": error: ".toList ++ fault.message
  | valueLost => "not enough values to unpack (expected 1, got 0)".toList

end Refusal

namespace Request

def program : Text := "objexpr".toList

def programOf (c : CommandName) : Text := program ++ ' ' :: c.name

def switches : List Switch := [.help, .version, .verbose]

def ofEnding : Switch → Request
  | .version => version
  | _ => help

def ofStop (program : Text) : Stop → Except Refusal Request
  | .fault f => .error (.usage program f)
  | .valueLost => .error .valueLost
  | .ending s => .ok (ofEnding s)

def command (c : CommandName) (operand : Text) (r : Reading) : Command :=
  let valueOf (i : Variable) : Binary64 := (r.number? (.value i)).getD .zero
  match c with
  | .eval => .eval operand ⟨valueOf .x, valueOf .y, valueOf .z⟩
  | .postfixForm => .postfixForm operand
  | .prefixForm => .prefixForm operand
  | .check => .check operand (r.number? .tolerance) (r.has .json)

/-- The request for a command, with what was read before its name. -/
def ofCommand (outer : Reading) (c : CommandName) (arguments : List Text) :
    Except Refusal Request :=
  match readArguments c.switches arguments with
  | .error stop => ofStop (programOf c) stop
  | .ok r =>
    match r.operand, outer.extras ++ r.extras with
    | none, _ => .error (.usage (programOf c) (.missing c.operand))
    | some operand, [] => .ok (run (outer.has .verbose) (command c operand r))
    | some _, extras => .error (.usage program (.unrecognized extras))

/-- What the first value says, which names the command. A separator before it is taken for
it. -/
def ofRest (outer : Reading) : List (Text × Role) → Except Refusal Request
  | [] | [(_, .separator)] => .error (.usage program (.missing "command".toList))
  | (t, _) :: rest =>
    match CommandName.ofName? t with
    | some c => ofCommand outer c (rest.map (·.1))
    | none => .error (.usage program (.unknownCommand t (CommandName.all.map CommandName.name)))

def isSwitch : Role → Bool
  | .switch .. | .unknown => true
  | _ => false

def ofArguments (arguments : List Text) : Except Refusal Request :=
  match rolesOf switches arguments with
  | .error f => .error (.usage program f)
  | .ok roles =>
    match Reading.empty.read switches (roles.takeWhile (isSwitch ·.2)) with
    | .error stop => ofStop program stop
    | .ok outer => ofRest outer (roles.dropWhile (isSwitch ·.2))

end Request
end PrefixCalc.CommandLine
