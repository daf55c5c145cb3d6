import PrefixCalc.Suite.Case
import PrefixCalc.Parse.Basic

/-! # Running cases

A case passes when its expectation is met: the parse fails with the expected kind, or the
expression parses and has the expected value within the tolerance, or nothing is expected of
an expression that parses. A negative tolerance is a fault of the run and shows only when
two numbers are compared under it. -/

namespace PrefixCalc
set_option autoImplicit false

inductive RunFault where
  | negativeTolerance
deriving DecidableEq

def RunFault.message : RunFault → Text
  | negativeTolerance => "tolerances must be non-negative".toList

namespace Binary64

/-- Equal values are close, an infinity is close to nothing else, and other values are close
when their distance is at most the tolerance. -/
def isClose (actual expected tolerance : Binary64) : Bool :=
  actual.eq expected ||
    (actual.isFinite && expected.isFinite &&
      (le (sub expected actual).abs zero || le (sub expected actual).abs tolerance))

/-- Not-a-number matches itself only; other values match when they are close. -/
def valuesMatch (actual expected tolerance : Binary64) : Except RunFault Bool :=
  if actual.isNaN || expected.isNaN then .ok (actual.isNaN && expected.isNaN)
  else if tolerance.lt zero then .error .negativeTolerance
  else .ok (isClose actual expected tolerance)

end Binary64

structure CaseResult where
  name : Text
  expression : Text
  passed : Bool
  actual : Option Binary64
  postfixForm : Option Text
  error : Option Text
  message : Text
deriving DecidableEq

structure SuiteResult where
  cases : List CaseResult
  errors : List Text
deriving DecidableEq

namespace Expr

/-- The value at a point. Every expression that the constructors and the parser give has
one. -/
def eval (e : Expr) (p : Point) : Binary64 := (e.eval? p).getD .nan

end Expr

namespace Case

def failedParse (c : Case) (e : ParseError) : CaseResult :=
  let met := c.error == some e.kind
  let message : Text :=
    if met then [] else match c.error with
      | some k =>
        "expected ".toList ++ k.name ++ ", got ".toList ++ e.kind.name ++ ": ".toList ++ e.message
      | none => e.message
  ⟨c.label, c.expression, met, none, none, some e.kind.name, message⟩

/-- What is said of a value when the expectation is not met; nothing when it is. -/
def complaint (c : Case) (actual tolerance : Binary64) : Except RunFault (Option Text) :=
  match c.error, c.expected with
  | some k, _ =>
    .ok (some ("expected ".toList ++ k.name ++ ", but the expression parsed".toList))
  | none, none => .ok none
  | none, some expected =>
    (actual.valuesMatch expected tolerance).map fun met =>
      if met then none
      else some ("expected ".toList ++ expected.toText ++ ", got ".toList ++ actual.toText)

def evaluated (c : Case) (e : Expr) (tolerance : Binary64) : Except RunFault CaseResult :=
  let actual := e.eval c.arguments
  (c.complaint actual tolerance).map fun complaint =>
    ⟨c.label, c.expression, complaint.isNone, some actual, some e.toPostfix, none,
      complaint.getD []⟩

def run (c : Case) (tolerance : Binary64) : Except RunFault CaseResult :=
  match parse c.expression with
  | .error e => .ok (c.failedParse e)
  | .ok e => c.evaluated e tolerance

end Case

namespace Suite

/-- The tolerance of a run: the overriding one if it is given, else the suite's own. -/
def effectiveTolerance (s : Suite) (override : Option Binary64) : Binary64 :=
  override.getD s.tolerance

/-- Every case in order, each by itself. -/
def runCases (tolerance : Binary64) : List Case → Except RunFault (List CaseResult)
  | [] => .ok []
  | c :: cs =>
    match c.run tolerance with
    | .error f => .error f
    | .ok r => (runCases tolerance cs).map (r :: ·)

def run (s : Suite) (override : Option Binary64) : Except RunFault SuiteResult :=
  (runCases (s.effectiveTolerance override) s.cases).map fun results => ⟨results, []⟩

end Suite
end PrefixCalc
