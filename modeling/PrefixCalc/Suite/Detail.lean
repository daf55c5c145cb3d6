import PrefixCalc.Suite.NumberRule
import PrefixCalc.Text.Quoted
import PrefixCalc.Expr.Basic
import PrefixCalc.Parse.Error

/-! # Details of a refusal

Data that is no suite is refused with one detail for each fault: the path to the place, the
type of the fault and a message. -/

namespace PrefixCalc
set_option autoImplicit false

inductive PathItem where
  | key (name : Text)
  | index (i : Int)
deriving DecidableEq

def PathItem.toText : PathItem → Text
  | key name => name
  | index i => Text.ofInt i

/-- What a rule of the suite's own finds wrong. -/
inductive RuleFault where
  | unknownVariables (names : List Text)
  | unknownErrorKind (name : Text)
  | twoExpectations
deriving DecidableEq

namespace RuleFault

def message : RuleFault → Text
  | unknownVariables names =>
    "Unknown variables ".toList ++ Text.quotedList names ++ ", bindings must use ".toList
      ++ Text.quotedList (Variable.all.map Variable.name)
  | unknownErrorKind name =>
    "Unknown error kind '".toList ++ name ++ "', expected one of ".toList
      ++ Text.quotedList (ErrorKind.sorted.map ErrorKind.name)
  | twoExpectations => "A case cannot expect both a value and an error".toList

end RuleFault

inductive Problem where
  | missing
  | extraForbidden
  | invalidKey
  | stringType
  | dictType
  | listType
  | tooShort
  | negative
  /-- The datum is no map from which a record of this name could be read. -/
  | modelType (name : Text)
  | number (fault : NumberFault)
  | rule (fault : RuleFault)
deriving DecidableEq

namespace Problem

def type : Problem → Text
  | missing => "missing".toList
  | extraForbidden => "extra_forbidden".toList
  | invalidKey => "invalid_key".toList
  | stringType => "string_type".toList
  | dictType => "dict_type".toList
  | listType => "list_type".toList
  | tooShort => "too_short".toList
  | negative => "greater_than_equal".toList
  | modelType _ => "model_type".toList
  | number .type => "float_type".toList
  | number .parsing => "float_parsing".toList
  | rule _ => "value_error".toList

def message : Problem → Text
  | missing => "Field required".toList
  | extraForbidden => "Extra inputs are not permitted".toList
  | invalidKey => "Keys should be strings".toList
  | stringType => "Input should be a valid string".toList
  | dictType => "Input should be a valid dictionary".toList
  | listType => "Input should be a valid list".toList
  | tooShort => "List should have at least 1 item after validation, not 0".toList
  | negative => "Input should be greater than or equal to 0".toList
  | modelType name => "Input should be a valid dictionary or instance of ".toList ++ name
  | number .type => "Input should be a valid number".toList
  | number .parsing =>
    "Input should be a valid number, unable to parse string as a number".toList
  | rule fault => "Value error, ".toList ++ fault.message

end Problem

structure Detail where
  path : List PathItem
  problem : Problem
deriving DecidableEq

namespace Detail

/-- The detail seen from one level further out. -/
def within (item : PathItem) (d : Detail) : Detail := { d with path := item :: d.path }

/-- The path with points between its steps, and the type of the fault. -/
def toText (d : Detail) : Text :=
  Text.joinWith ['.'] (d.path.map PathItem.toText) ++ ": ".toList ++ d.problem.type

end Detail
end PrefixCalc
