import PrefixCalc.Suite.Run
import PrefixCalc.Json.Basic

/-! # Reports

A result of a suite is told as a summary, as a structured value, and by whether it is valid:
nothing went wrong in loading and every case passed. -/

namespace PrefixCalc
set_option autoImplicit false

namespace CaseResult

/-- A value that is not finite is told by its name. -/
def actualJson (v : Binary64) : Json := if v.isFinite then .number v else .text v.format

/-- A field that is told only if there is something to tell. -/
def field (name : Text) (value : Option Json) : List (Text × Json) :=
  value.toList.map fun j => (name, j)

def nonEmpty (t : Text) : Option Json := if t = [] then none else some (.text t)

def toJson (r : CaseResult) : Json :=
  .object ([("name".toList, .text r.name), ("expression".toList, .text r.expression),
      ("passed".toList, .bool r.passed)]
    ++ field "actual".toList (r.actual.map actualJson)
    ++ field "postfix".toList (r.postfixForm.map .text)
    ++ field "error".toList (r.error.bind nonEmpty)
    ++ field "message".toList (nonEmpty r.message))

end CaseResult

namespace SuiteResult

def passed (r : SuiteResult) : Nat := r.cases.countP (·.passed)

def failed (r : SuiteResult) : Nat := r.cases.countP (!·.passed)

def valid (r : SuiteResult) : Bool := r.errors.isEmpty && r.failed == 0

def summaryLines (r : SuiteResult) : List Text :=
  ["Suite ".toList ++ (if r.valid then "PASSED".toList else "FAILED".toList),
    "  Passed: ".toList ++ Text.ofNat r.passed, "  Failed: ".toList ++ Text.ofNat r.failed]
    ++ r.errors.map ("  Error: ".toList ++ ·)
    ++ (r.cases.filter (!·.passed)).map fun c =>
      "  FAIL ".toList ++ c.name ++ ": ".toList ++ c.message

def summary (r : SuiteResult) : Text := Text.joinWith ['\n'] r.summaryLines

def toJson (r : SuiteResult) : Json :=
  .object [("valid".toList, .bool r.valid), ("passed".toList, .count r.passed),
    ("failed".toList, .count r.failed), ("errors".toList, .list (r.errors.map .text)),
    ("cases".toList, .list (r.cases.map CaseResult.toJson))]

end SuiteResult
end PrefixCalc
