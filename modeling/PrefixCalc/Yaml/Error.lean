import PrefixCalc.Text.Quoted

/-! # What is wrong with a document

A document that cannot be read is malformed, or one of its scalars is not what the type of
the scalar asks for, or a text in it cannot be held because a character is half of a pair. -/

namespace PrefixCalc.Yaml
set_option autoImplicit false

inductive TimeFault where
  | year (n : Nat)
  | month
  | day
  | hour
  | minute
  | second
  /-- The zone is a day or more away. -/
  | offset (minutes : Int)
deriving DecidableEq

inductive ScalarFault where
  /-- An escape names a number beyond the last code point. -/
  | codePoint (n : Nat)
  /-- There is no character where a number should start. -/
  | blank
  | notWhole (base : Nat) (text : Text)
  | tooLong (digits : Nat)
  | notNumber (text : Text)
  | notWord (text : Text)
  | notTimestamp
  | time (fault : TimeFault)
deriving DecidableEq

inductive Error where
  | malformed
  | scalar (fault : ScalarFault)
  /-- An escape names half of a surrogate pair, which is a code point but no character. -/
  | surrogate (n : Nat)
deriving DecidableEq

abbrev Result (α : Type) := Except Error α

def fail {α : Type} : Result α := .error .malformed

/-- A span of minutes as whole days, which may be negative, and the seconds on top. -/
def spanText (minutes : Int) : Text :=
  let days := Int.fdiv minutes 1440
  let seconds := Int.fmod minutes 1440 * 60
  let part (name : String) (n : Int) : List Text :=
    if n = 0 then [] else [name.toList ++ '=' :: Text.ofInt n]
  let parts := part "days" days ++ part "seconds" seconds
  "datetime.timedelta(".toList
    ++ (if parts = [] then ['0'] else Text.joinWith ", ".toList parts) ++ [')']

namespace TimeFault

def message : TimeFault → Text
  | year n => "year ".toList ++ Text.ofNat n ++ " is out of range".toList
  | month => "month must be in 1..12".toList
  | day => "day is out of range for month".toList
  | hour => "hour must be in 0..23".toList
  | minute => "minute must be in 0..59".toList
  | second => "second must be in 0..59".toList
  | offset minutes =>
    "offset must be a timedelta strictly between -timedelta(hours=24) and ".toList
      ++ "timedelta(hours=24), not ".toList ++ spanText minutes ++ ['.']

end TimeFault

/-- Only the first two hundred characters of a text that is no whole number are told. -/
def ScalarFault.message : ScalarFault → Text
  | codePoint _ => "chr() arg not in range(0x110000)".toList
  | blank => "string index out of range".toList
  | notWhole base text =>
    "invalid literal for int() with base ".toList ++ Text.ofNat base ++ ": ".toList
      ++ text.quoted.take 200
  | tooLong digits =>
    "Exceeds the limit (4300 digits) for integer string conversion: value has ".toList
      ++ Text.ofNat digits
      ++ " digits; use sys.set_int_max_str_digits() to increase the limit".toList
  | notNumber text => "could not convert string to float: ".toList ++ text.quoted
  | notWord text => text
  | notTimestamp => "the text is no timestamp".toList
  | time fault => fault.message

end PrefixCalc.Yaml
