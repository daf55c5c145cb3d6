import PrefixCalc.Parse.Log
import PrefixCalc.Suite.File

/-! # Checks

A check loads a suite from a file and runs it. It gives a result and the notes taken on the
way: that the suite is loaded, what the parser noted for each case, and each failure. -/

namespace PrefixCalc
set_option autoImplicit false

inductive Level where
  | debug
  | info
  | warning
deriving DecidableEq

def Level.name : Level → Text
  | debug => "DEBUG".toList
  | info => "INFO".toList
  | warning => "WARNING".toList

inductive Note where
  | loaded (cases : Nat) (path : Text)
  | parsing (event : Parse.Event)
  | failed (name message : Text)
deriving DecidableEq

namespace Note

def level : Note → Level
  | loaded .. => .info
  | parsing _ => .debug
  | failed .. => .warning

def source : Note → Text
  | parsing _ => "backend.objexpr.logic.parser".toList
  | loaded .. | failed .. => "backend.objexpr.runner".toList

def message : Note → Text
  | loaded cases path =>
    "Loaded ".toList ++ Text.ofNat cases ++ " cases from ".toList ++ path
  | parsing event => event.toText
  | failed name message => "Case ".toList ++ name ++ " failed: ".toList ++ message

def toText (n : Note) : Text :=
  n.level.name ++ ' ' :: n.source ++ ": ".toList ++ n.message

def ofParse (t : Text) : List Note := (Parse.log t).map parsing

def ofCase (r : CaseResult) : List Note :=
  ofParse r.expression ++ if r.passed then [] else [failed r.name r.message]

end Note

structure Check where
  result : SuiteResult
  notes : List Note
deriving DecidableEq

namespace Check

def ofLoadError (e : LoadError) : Check := ⟨⟨[], [e.message]⟩, []⟩

def ofResult (path : Text) (r : SuiteResult) : Check :=
  ⟨r, .loaded r.cases.length path :: r.cases.flatMap Note.ofCase⟩

/-- The check of what is at a path, under the overriding tolerance if one is given. -/
def ofFile (loader : Loader) (path : Text) (file : File) (override : Option Binary64) :
    Except CheckFault Check :=
  match Suite.ofFile loader path.normalPath file with
  | .error f => .error f
  | .ok (.error e) => .ok (ofLoadError e)
  | .ok (.ok suite) =>
    match suite.run override with
    | .error f => .error (.run f)
    | .ok r => .ok (ofResult path.normalPath r)

end Check
end PrefixCalc
