import PrefixCalc.Expr.Operator
import PrefixCalc.Number.Format

/-! # Expressions

An expression is a constant, one of three variables, or an operator on a list of operands.
It has a value for each triple of doubles, a bracketed form with the operator first, and a
bracketless form with the operator last. `Expr.WellFormed` says that every operator has a
number of operands that its arity accepts. -/

namespace PrefixCalc
set_option autoImplicit false

inductive Variable where
  | x
  | y
  | z
deriving DecidableEq

namespace Variable

def all : List Variable := [x, y, z]

def name : Variable → Text
  | x => ['x']
  | y => ['y']
  | z => ['z']

def index : Variable → Nat
  | x => 0
  | y => 1
  | z => 2

def ofName? (t : Text) : Option Variable := all.find? (·.name == t)

theorem mem_all (v : Variable) : v ∈ all := by cases v <;> decide

theorem ofName?_name (v : Variable) : ofName? v.name = some v := by cases v <;> decide

theorem name_of_ofName? {t : Text} {v : Variable} (h : ofName? t = some v) : v.name = t := by
  have := List.find?_some h
  simpa using this

end Variable

structure Point where
  x : Binary64
  y : Binary64
  z : Binary64
deriving DecidableEq

namespace Point

def get (p : Point) : Variable → Binary64
  | .x => p.x
  | .y => p.y
  | .z => p.z

def toList (p : Point) : List Binary64 := [p.x, p.y, p.z]

end Point

inductive Expr where
  | const (value : Binary64)
  | var (name : Variable)
  | node (op : Operator) (operands : List Expr)

namespace Expr

instance : Inhabited Expr := ⟨.const .zero⟩

/-- The operation on the operands, if its arity accepts their number. -/
def operation? (op : Operator) (es : List Expr) : Option Expr :=
  if op.arity.accepts es.length then some (node op es) else none

theorem operation?_eq_some_iff {op : Operator} {es : List Expr} {e : Expr} :
    operation? op es = some e ↔ op.arity.accepts es.length = true ∧ e = node op es := by
  unfold operation?
  split
  · rename_i h
    rw [Option.some.injEq]
    exact ⟨fun he => ⟨h, he.symm⟩, fun he => he.2.symm⟩
  · rename_i h
    simp [h]

mutual

/-- The value at a point; an operator with a wrong number of operands has none. -/
def eval? (p : Point) : Expr → Option Binary64
  | const v => some v
  | var i => some (p.get i)
  | node op es => (evalList? p es).bind op.rule?

def evalList? (p : Point) : List Expr → Option (List Binary64)
  | [] => some []
  | e :: es => (eval? p e).bind fun v => (evalList? p es).map (v :: ·)

end

mutual

/-- The bracketed form: the operator, then its operands. -/
def toPrefix : Expr → Text
  | const v => v.format
  | var i => i.name
  | node op es => '(' :: (op.symbol ++ operandsText es ++ [')'])

def operandsText : List Expr → Text
  | [] => []
  | e :: es => ' ' :: (toPrefix e ++ operandsText es)

end

mutual

/-- The bracketless form: the operands, then the operator. -/
def toPostfix : Expr → Text
  | const v => v.format
  | var i => i.name
  | node op es => operandsPostfix es ++ op.symbol

def operandsPostfix : List Expr → Text
  | [] => []
  | e :: es => toPostfix e ++ ' ' :: operandsPostfix es

end

mutual

/-- Equality of trees in which constants are compared as numbers. -/
def same : Expr → Expr → Bool
  | const v, const w => v.eq w
  | var i, var j => i == j
  | node op es, node op' es' => op == op' && sameList es es'
  | _, _ => false

def sameList : List Expr → List Expr → Bool
  | [], [] => true
  | e :: es, e' :: es' => same e e' && sameList es es'
  | _, _ => false

end

/-- Every operator has a number of operands that its arity accepts. -/
inductive WellFormed : Expr → Prop where
  | const (v : Binary64) : WellFormed (.const v)
  | var (i : Variable) : WellFormed (.var i)
  | node {op : Operator} {es : List Expr} (count : op.arity.accepts es.length = true)
      (operands : ∀ e ∈ es, WellFormed e) : WellFormed (.node op es)

mutual

/-- All subtrees in preorder: an operation before its operands. -/
def preorder : Expr → List Expr
  | const v => [const v]
  | var i => [var i]
  | node op es => node op es :: preorderList es

def preorderList : List Expr → List Expr
  | [] => []
  | e :: es => preorder e ++ preorderList es

end

@[simp] theorem evalList?_nil (p : Point) : evalList? p [] = some [] := by rw [evalList?]

@[simp] theorem operandsText_nil : operandsText [] = [] := by rw [operandsText]

@[simp] theorem operandsText_cons (e : Expr) (es : List Expr) :
    operandsText (e :: es) = ' ' :: (toPrefix e ++ operandsText es) := by rw [operandsText]

@[simp] theorem operandsPostfix_nil : operandsPostfix [] = [] := by rw [operandsPostfix]

@[simp] theorem operandsPostfix_cons (e : Expr) (es : List Expr) :
    operandsPostfix (e :: es) = toPostfix e ++ ' ' :: operandsPostfix es := by
  rw [operandsPostfix]

end Expr
end PrefixCalc
