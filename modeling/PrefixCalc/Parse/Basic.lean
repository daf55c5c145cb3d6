import PrefixCalc.Parse.Machine

/-! # Parsing

`parse` reads a whole text as one expression, or tells the first error. `Parse.log` is what
the machine noted on the way: each lexeme that an expression was read from, and each
operation when its closing bracket was read. -/

namespace PrefixCalc
set_option autoImplicit false

namespace Parse

/-- The machine before its first move: an expression starts with the first lexeme. -/
def State.start (t : Text) : State :=
  ⟨.read (Cursor.ofText t).next.1, [], (Cursor.ofText t).next.2⟩

/-- After a complete expression only blanks may follow. -/
def finish (t : Text) (e : Expr) (c : Cursor) : Except ParseError Expr :=
  if c.skipBlanks.atEnd then .ok e else .error ⟨t, .wrongEnding c.skipBlanks.pos⟩

def resultOf (t : Text) (o : Outcome) (h : ∀ f, o ≠ .fault f) : Except ParseError Expr :=
  match o, h with
  | .tree e c, _ => finish t e c
  | .error cause, _ => .error ⟨t, cause⟩
  | .fault f, h => absurd rfl (h f)

def log (t : Text) : List Event := if t = [] then [] else (State.start t).run.1

end Parse

/-- The expression that the whole text writes, or the first error. -/
def parse (t : Text) : Except ParseError Expr :=
  if t = [] then .error ⟨t, .emptyExpression⟩
  else Parse.resultOf t (Parse.State.start t).run.2 (Parse.State.run_ne_fault _)

namespace Expr

def ofText? (t : Text) : Option Expr := (parse t).toOption

end Expr
end PrefixCalc
