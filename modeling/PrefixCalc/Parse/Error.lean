import PrefixCalc.Text.Basic

/-! # Parse errors

A parse fails for one of seven causes. Each cause marks a span of the source; the message
says what is wrong, the position of the span counted from one, and shows the source with
the span between two markers. -/

namespace PrefixCalc
set_option autoImplicit false

namespace Text

def openMarker : Text := "|-->".toList

def closeMarker : Text := "<--|".toList

/-- The text with markers at two places; a place past the end is the end. -/
def mark (t : Text) (start stop : Nat) : Text :=
  t.take start ++ openMarker ++ (t.take stop).drop start ++ closeMarker ++ t.drop stop

end Text

inductive ErrorKind where
  | emptyExpression
  | unknownLexeme
  | operationNotFound
  | wrongBracketSequence
  | wrongOperandsQty
  | wrongConst
  | wrongEnding
deriving DecidableEq

namespace ErrorKind

def all : List ErrorKind :=
  [emptyExpression, unknownLexeme, operationNotFound, wrongBracketSequence, wrongOperandsQty,
    wrongConst, wrongEnding]

def name : ErrorKind → Text
  | emptyExpression => "EmptyExpressionError".toList
  | unknownLexeme => "UnknownLexemeError".toList
  | operationNotFound => "OperationNotFoundError".toList
  | wrongBracketSequence => "WrongBracketSequenceError".toList
  | wrongOperandsQty => "WrongOperandsQtyError".toList
  | wrongConst => "WrongConstError".toList
  | wrongEnding => "WrongEndingError".toList

def ofName? (t : Text) : Option ErrorKind := all.find? (·.name == t)

def sorted : List ErrorKind :=
  [emptyExpression, operationNotFound, unknownLexeme, wrongBracketSequence, wrongConst,
    wrongEnding, wrongOperandsQty]

theorem mem_all (k : ErrorKind) : k ∈ all := by cases k <;> decide

theorem ofName?_name (k : ErrorKind) : ofName? k.name = some k := by cases k <;> decide

theorem name_of_ofName? {t : Text} {k : ErrorKind} (h : ofName? t = some k) : k.name = t := by
  have := List.find?_some h
  simpa using this

end ErrorKind

/-- What is wrong and where; places count characters from zero. -/
inductive ParseError.Cause where
  | emptyExpression
  | unknownLexeme (start : Nat) (lexeme : Text)
  | operationNotFound (start : Nat) (operation : Text)
  | wrongBracketSequence (start : Nat)
  /-- The span runs from the opening bracket's end to the operator's end. -/
  | wrongOperandsQty (operation : Text) (expected found start stop : Nat)
  | wrongConst (start : Nat) (lexeme : Text)
  | wrongEnding (start : Nat)
deriving DecidableEq

structure ParseError where
  source : Text
  cause : ParseError.Cause
deriving DecidableEq

namespace ParseError

def kind (e : ParseError) : ErrorKind :=
  match e.cause with
  | .emptyExpression => .emptyExpression
  | .unknownLexeme .. => .unknownLexeme
  | .operationNotFound .. => .operationNotFound
  | .wrongBracketSequence .. => .wrongBracketSequence
  | .wrongOperandsQty .. => .wrongOperandsQty
  | .wrongConst .. => .wrongConst
  | .wrongEnding .. => .wrongEnding

def start (e : ParseError) : Nat :=
  match e.cause with
  | .emptyExpression => 0
  | .unknownLexeme i _ => i
  | .operationNotFound i _ => i
  | .wrongBracketSequence i => i
  | .wrongOperandsQty _ _ _ i _ => i
  | .wrongConst i _ => i
  | .wrongEnding i => i

/-- The place where the marked span ends, which may lie past the end of the source. -/
def stop (e : ParseError) : Nat :=
  match e.cause with
  | .emptyExpression => e.source.length
  | .unknownLexeme i t => i + t.length
  | .operationNotFound i t => i + t.length
  | .wrongBracketSequence i => i + 1
  | .wrongOperandsQty _ _ _ _ j => j
  | .wrongConst i t => i + t.length
  | .wrongEnding _ => e.source.length

/-- Positions count from one. -/
def position (e : ParseError) : Nat := e.start + 1

def length (e : ParseError) : Int := (e.stop : Int) - e.start

def pointer (e : ParseError) : Text := e.source.mark e.start e.stop

def summary (e : ParseError) : Text :=
  match e.cause with
  | .emptyExpression => "Expression is empty".toList
  | .unknownLexeme _ t => "Found unknown lexeme '".toList ++ t ++ ['\'']
  | .operationNotFound _ t =>
    "Expected operation after opening bracket, but found ".toList ++ t
  | .wrongBracketSequence _ =>
    "Found wrong bracket sequence: expected closing bracket".toList
  | .wrongOperandsQty t expected found _ _ =>
    "Wrong operands quantity for operation '".toList ++ t ++ "': expected ".toList
      ++ Text.ofNat expected ++ ", found ".toList ++ Text.ofNat found
  | .wrongConst _ t => '\'' :: t ++ "' is not a number".toList
  | .wrongEnding _ => "Expected end of expression".toList

/-- The full message. An empty expression has no position worth telling. -/
def message (e : ParseError) : Text :=
  match e.cause with
  | .emptyExpression => e.summary ++ ":\n".toList ++ e.pointer
  | _ =>
    e.summary ++ " at position: ".toList ++ Text.ofNat e.position ++ ['\n'] ++ e.pointer

end ParseError
end PrefixCalc
