import PrefixCalc.Expr.Basic

/-! # Expressions built on a stack

Expressions are put together from constants, variables and operator symbols on a stack of
operands. A construction that would leave the known names and symbols, or give an operator
a wrong number of operands, is refused and leaves the stack as it was. -/

namespace PrefixCalc
set_option autoImplicit false

namespace Expr

inductive BuildError where
  | unknownVariable (name : Text)
  | unknownSymbol (symbol : Text)
  | operandCount (op : Operator) (found : Nat)
deriving DecidableEq

/-- An unknown symbol is told by itself. -/
def BuildError.message : BuildError → Text
  | .unknownVariable name =>
    "Unknown variable '".toList ++ name ++ "', expected one of ('x', 'y', 'z')".toList
  | .unknownSymbol symbol => symbol
  | .operandCount op found =>
    "Operation '".toList ++ op.symbol ++ "' expects ".toList ++ op.arity.toText
      ++ " operands, got ".toList ++ Text.ofNat found

def ofName (name : Text) : Except BuildError Expr :=
  match Variable.ofName? name with
  | some i => .ok (.var i)
  | none => .error (.unknownVariable name)

def ofSymbol (symbol : Text) (operands : List Expr) : Except BuildError Expr :=
  match Operator.ofSymbol? symbol with
  | none => .error (.unknownSymbol symbol)
  | some op =>
    match operation? op operands with
    | some e => .ok e
    | none => .error (.operandCount op operands.length)

inductive Step where
  | const (value : Binary64)
  | var (name : Text)
  | apply (symbol : Text) (count : Nat)
  | dup
  | swap
  | drop
deriving DecidableEq

/-- The top is the first expression of the list. A step that needs more expressions than
there are changes nothing. -/
def Step.run (stack : List Expr) : Step → Except BuildError (List Expr)
  | const v => .ok (.const v :: stack)
  | var name => (ofName name).map (· :: stack)
  | apply symbol n => (ofSymbol symbol (stack.take n).reverse).map (· :: stack.drop n)
  | dup => .ok (match stack with | e :: r => e :: e :: r | r => r)
  | swap => .ok (match stack with | d :: e :: r => e :: d :: r | r => r)
  | drop => .ok (stack.drop 1)

/-- The stack after all steps; a refused step leaves it as it was. -/
def Step.runAll (stack : List Expr) (steps : List Step) : List Expr :=
  steps.foldl (fun s step => match step.run s with | .ok t => t | .error _ => s) stack

end Expr
end PrefixCalc
