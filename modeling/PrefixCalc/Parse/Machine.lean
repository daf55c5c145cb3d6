import PrefixCalc.Lexeme.Cursor
import PrefixCalc.Number.Literal
import PrefixCalc.Expr.Basic
import PrefixCalc.Parse.Error

/-! # The parsing machine

The machine reads an expression with a cursor and a stack of open operations. A state has a
focus: a lexeme to read an expression from, an open operation that may take another operand
or that waits for its closing bracket, or an expression that has just been completed.
`State.step` makes one move; each move uses up input or goes down in `Focus.rank`, so
`State.run` ends on every text.

A machine that pushed back onto a full slot, compared a number of operands with the count of
a variadic arity, built an operation with a wrong number of operands or read a number from a
lexeme that is none would stop with a fault. `State.Effect` lists what a move does, without a
fault among its cases; `State.effect_step` says that every move is in the list, and
`State.run_ne_fault` that no run ends in a fault. -/

namespace PrefixCalc
set_option autoImplicit false

namespace Text

/-- A lexeme that starts like a constant: with a digit or a minus sign. -/
def startsConst : Text → Bool
  | c :: _ => c.isDigit || c == '-'
  | [] => false

/-- A lexeme that can start an operand: an opening bracket, a variable or a number. -/
def startsOperand (t : Text) : Bool :=
  t == ['('] || (Variable.ofName? t).isSome || isNumber t

end Text

namespace Parse

/-- An operation whose operands are still being collected. -/
structure Frame where
  opening : Lexeme
  operator : Lexeme
  op : Operator
  operands : List Expr

namespace Frame

def push (f : Frame) (e : Expr) : Frame := { f with operands := f.operands ++ [e] }

def wantsMore (f : Frame) : Bool := f.op.arity.wantsMore f.operands.length

/-- The test as the machine makes it, without an answer when it meets no count. -/
def wantsMore? (f : Frame) : Option Bool := f.op.arity.wantsMore? f.operands.length

@[simp] theorem wantsMore?_eq (f : Frame) : f.wantsMore? = some f.wantsMore :=
  Arity.wantsMore?_eq _ _

end Frame

inductive Focus where
  /-- An expression starts with this lexeme. -/
  | read (l : Lexeme)
  /-- The operation may take another operand. -/
  | collect (f : Frame)
  /-- The operation waits for its closing bracket. -/
  | close (f : Frame)
  /-- An expression is complete. -/
  | built (e : Expr)

/-- Moves that read nothing go down in rank. -/
def Focus.rank : Focus → Nat
  | read _ => 3
  | built _ => 2
  | collect _ => 1
  | close _ => 0

inductive Event where
  | analyzing (l : Lexeme)
  | built (op : Operator) (operands : Nat)
deriving DecidableEq

inductive Fault where
  | slotFull
  | missingCount
  | operandCount
  | unreadableNumber
deriving DecidableEq

inductive Outcome where
  | tree (e : Expr) (rest : Cursor)
  | error (c : ParseError.Cause)
  | fault (f : Fault)

structure State where
  focus : Focus
  stack : List Frame
  cursor : Cursor

inductive Move where
  | next (s : State) (events : List Event)
  | stop (o : Outcome) (events : List Event)

namespace State

def readConst (l : Lexeme) (stack : List Frame) (cursor : Cursor) : Move :=
  if Text.isNumber l.text then
    match Text.toBinary64? l.text with
    | some v => .next ⟨.built (.const v), stack, cursor⟩ [.analyzing l]
    | none => .stop (.fault .unreadableNumber) [.analyzing l]
  else .stop (.error (.wrongConst l.start l.text)) [.analyzing l]

/-- The operation that the bracket opens, named by the lexeme after it. -/
def openOperation (l : Lexeme) (stack : List Frame) (cursor : Cursor) : Move :=
  let operator := cursor.next.1
  match Operator.ofSymbol? operator.text with
  | some op => .next ⟨.collect ⟨l, operator, op, []⟩, stack, cursor.next.2⟩ [.analyzing l]
  | none => .stop (.error (.operationNotFound operator.start operator.text)) [.analyzing l]

def readLexeme (l : Lexeme) (stack : List Frame) (cursor : Cursor) : Move :=
  if l.text = ['('] then openOperation l stack cursor
  else match Variable.ofName? l.text with
    | some i => .next ⟨.built (.var i), stack, cursor⟩ [.analyzing l]
    | none =>
      if Text.startsConst l.text then readConst l stack cursor
      else .stop (.error (.unknownLexeme l.start l.text)) [.analyzing l]

/-- The lexeme that ends the operands is pushed back for the check of the bracket. -/
def collect (f : Frame) (stack : List Frame) (cursor : Cursor) : Move :=
  match f.wantsMore? with
  | some true =>
    let l := cursor.next.1
    if Text.startsOperand l.text then .next ⟨.read l, f :: stack, cursor.next.2⟩ []
    else match cursor.next.2.pushBack? l with
      | some cursor => .next ⟨.close f, stack, cursor⟩ []
      | none => .stop (.fault .slotFull) []
  | some false => .next ⟨.close f, stack, cursor⟩ []
  | none => .stop (.fault .missingCount) []

/-- The number of operands is checked once the bracket is there, and again when the operation
is built. -/
def close (f : Frame) (stack : List Frame) (cursor : Cursor) : Move :=
  let l := cursor.next.1
  let count := f.operands.length
  if l.text = [')'] then
    if f.op.arity.accepts count then
      match Expr.operation? f.op f.operands with
      | some e => .next ⟨.built e, stack, cursor.next.2⟩ [.built f.op count]
      | none => .stop (.fault .operandCount) []
    else match f.op.arity.count? with
      | some expected =>
        .stop (.error (.wrongOperandsQty f.op.symbol expected count f.opening.stop
          f.operator.stop)) []
      | none => .stop (.fault .missingCount) []
  else .stop (.error (.wrongBracketSequence l.start)) []

/-- A complete expression is an operand of the innermost open operation, or the result. -/
def deliver (e : Expr) (stack : List Frame) (cursor : Cursor) : Move :=
  match stack with
  | [] => .stop (.tree e cursor) []
  | f :: stack => .next ⟨.collect (f.push e), stack, cursor⟩ []

def step (s : State) : Move :=
  match s.focus with
  | .read l => readLexeme l s.stack s.cursor
  | .collect f => collect f s.stack s.cursor
  | .close f => close f s.stack s.cursor
  | .built e => deliver e s.stack s.cursor

/-! ## What a move does -/

/-- The moves of the machine by the focus that they start from. -/
inductive Effect : State → Move → Prop where
  | opened {l : Lexeme} {stack : List Frame} {c : Cursor} {op : Operator}
      (bracket : l.text = ['(']) (symbol : Operator.ofSymbol? c.next.1.text = some op) :
      Effect ⟨.read l, stack, c⟩
        (.next ⟨.collect ⟨l, c.next.1, op, []⟩, stack, c.next.2⟩ [.analyzing l])
  | operationNotFound {l : Lexeme} {stack : List Frame} {c : Cursor}
      (bracket : l.text = ['(']) (symbol : Operator.ofSymbol? c.next.1.text = none) :
      Effect ⟨.read l, stack, c⟩
        (.stop (.error (.operationNotFound c.next.1.start c.next.1.text)) [.analyzing l])
  | var {l : Lexeme} {stack : List Frame} {c : Cursor} {i : Variable}
      (name : Variable.ofName? l.text = some i) :
      Effect ⟨.read l, stack, c⟩ (.next ⟨.built (.var i), stack, c⟩ [.analyzing l])
  | const {l : Lexeme} {stack : List Frame} {c : Cursor} {v : Binary64}
      (start : Text.startsConst l.text = true) (value : Text.toBinary64? l.text = some v) :
      Effect ⟨.read l, stack, c⟩ (.next ⟨.built (.const v), stack, c⟩ [.analyzing l])
  | wrongConst {l : Lexeme} {stack : List Frame} {c : Cursor}
      (start : Text.startsConst l.text = true) (number : Text.isNumber l.text = false) :
      Effect ⟨.read l, stack, c⟩ (.stop (.error (.wrongConst l.start l.text)) [.analyzing l])
  | unknownLexeme {l : Lexeme} {stack : List Frame} {c : Cursor}
      (bracket : l.text ≠ ['(']) (name : Variable.ofName? l.text = none)
      (start : Text.startsConst l.text = false) :
      Effect ⟨.read l, stack, c⟩ (.stop (.error (.unknownLexeme l.start l.text)) [.analyzing l])
  | operand {f : Frame} {stack : List Frame} {c : Cursor} (more : f.wantsMore = true)
      (starts : Text.startsOperand c.next.1.text = true) :
      Effect ⟨.collect f, stack, c⟩ (.next ⟨.read c.next.1, f :: stack, c.next.2⟩ [])
  | pushedBack {f : Frame} {stack : List Frame} {c d : Cursor} (more : f.wantsMore = true)
      (starts : Text.startsOperand c.next.1.text = false)
      (back : c.next.2.pushBack? c.next.1 = some d) :
      Effect ⟨.collect f, stack, c⟩ (.next ⟨.close f, stack, d⟩ [])
  | full {f : Frame} {stack : List Frame} {c : Cursor} (more : f.wantsMore = false) :
      Effect ⟨.collect f, stack, c⟩ (.next ⟨.close f, stack, c⟩ [])
  | closed {f : Frame} {stack : List Frame} {c : Cursor} (bracket : c.next.1.text = [')'])
      (count : f.op.arity.accepts f.operands.length = true) :
      Effect ⟨.close f, stack, c⟩
        (.next ⟨.built (.node f.op f.operands), stack, c.next.2⟩
          [.built f.op f.operands.length])
  | wrongOperandsQty {f : Frame} {stack : List Frame} {c : Cursor} {n : Nat}
      (bracket : c.next.1.text = [')']) (arity : f.op.arity = .fixed n)
      (count : f.operands.length ≠ n) :
      Effect ⟨.close f, stack, c⟩
        (.stop (.error (.wrongOperandsQty f.op.symbol n f.operands.length f.opening.stop
          f.operator.stop)) [])
  | wrongBracketSequence {f : Frame} {stack : List Frame} {c : Cursor}
      (bracket : c.next.1.text ≠ [')']) :
      Effect ⟨.close f, stack, c⟩ (.stop (.error (.wrongBracketSequence c.next.1.start)) [])
  | delivered {e : Expr} {f : Frame} {stack : List Frame} {c : Cursor} :
      Effect ⟨.built e, f :: stack, c⟩ (.next ⟨.collect (f.push e), stack, c⟩ [])
  | finished {e : Expr} {c : Cursor} : Effect ⟨.built e, [], c⟩ (.stop (.tree e c) [])

theorem effect_openOperation {l : Lexeme} (stack : List Frame) (c : Cursor)
    (hl : l.text = ['(']) : Effect ⟨.read l, stack, c⟩ (openOperation l stack c) := by
  unfold openOperation
  dsimp only
  split
  · rename_i op hop
    exact .opened hl hop
  · rename_i hop
    exact .operationNotFound hl hop

/-- The number test admits just the texts that can be read. -/
theorem effect_readConst {l : Lexeme} (stack : List Frame) (c : Cursor)
    (hl : Text.startsConst l.text = true) :
    Effect ⟨.read l, stack, c⟩ (readConst l stack c) := by
  unfold readConst
  split
  · rename_i hn
    split
    · rename_i v hv
      exact .const hl hv
    · rename_i hv
      simp [Text.isNumber, Option.map_eq_none_iff.1 hv] at hn
  · rename_i hn
    exact .wrongConst hl (by simpa using hn)

theorem effect_readLexeme (l : Lexeme) (stack : List Frame) (c : Cursor) :
    Effect ⟨.read l, stack, c⟩ (readLexeme l stack c) := by
  unfold readLexeme
  split
  · rename_i hl
    exact effect_openOperation stack c hl
  · rename_i hl
    split
    · rename_i i hi
      exact .var hi
    · rename_i hi
      split
      · rename_i hs
        exact effect_readConst stack c hs
      · rename_i hs
        exact .unknownLexeme hl hi (by simpa using hs)

/-- The slot is empty after a lexeme was read, so that the lexeme can be pushed back. -/
theorem effect_collect (f : Frame) (stack : List Frame) (c : Cursor) :
    Effect ⟨.collect f, stack, c⟩ (collect f stack c) := by
  unfold collect
  rw [Frame.wantsMore?_eq]
  cases hm : f.wantsMore with
  | false => exact .full hm
  | true =>
    dsimp only
    split
    · rename_i hs
      exact .operand hm hs
    · rename_i hs
      have hs' : Text.startsOperand c.next.1.text = false := by simpa using hs
      cases hb : c.next.2.pushBack? c.next.1 with
      | some d => exact .pushedBack hm hs' hb
      | none => simp [Cursor.pushBack?] at hb

theorem effect_close (f : Frame) (stack : List Frame) (c : Cursor) :
    Effect ⟨.close f, stack, c⟩ (close f stack c) := by
  unfold close
  dsimp only
  split
  · rename_i hb
    split
    · rename_i hc
      rw [Expr.operation?_eq_some_iff.2 ⟨hc, rfl⟩]
      exact .closed hb hc
    · rename_i hc
      cases ha : f.op.arity with
      | variadic => simp [ha, Arity.accepts] at hc
      | fixed n => exact .wrongOperandsQty hb ha (by simpa [ha, Arity.accepts] using hc)
  · rename_i hb
    exact .wrongBracketSequence hb

theorem effect_step (s : State) : Effect s s.step := by
  obtain ⟨focus, stack, c⟩ := s
  cases focus with
  | read l => exact effect_readLexeme l stack c
  | collect f => exact effect_collect f stack c
  | close f => exact effect_close f stack c
  | built e =>
    cases stack with
    | nil => exact .finished
    | cons f stack => exact .delivered

theorem effect_of_step {s : State} {m : Move} (h : s.step = m) : Effect s m := h ▸ s.effect_step

/-! ## Runs -/

theorem startsOperand_ne_nil {t : Text} (h : Text.startsOperand t = true) : t ≠ [] := by
  rintro rfl
  revert h
  decide

/-- Every move lowers this measure. -/
def measure (s : State) : Nat := 4 * s.cursor.unread + s.focus.rank

theorem measure_step {s t : State} {es : List Event} (h : s.step = .next t es) :
    t.measure < s.measure := by
  unfold measure
  cases effect_of_step h with
  | @opened _ _ c =>
    have := c.unread_next_le
    simp only [Focus.rank]
    omega
  | var => simp [Focus.rank]
  | const => simp [Focus.rank]
  | operand _ starts =>
    have := Cursor.unread_next_lt (startsOperand_ne_nil starts)
    simp only [Focus.rank]
    omega
  | @pushedBack _ _ c _ _ _ back =>
    have := Cursor.unread_pushBack? back
    have := c.unread_next_le
    simp only [Focus.rank]
    omega
  | full => simp [Focus.rank]
  | @closed _ _ c bracket =>
    have := Cursor.unread_next_lt (c := c) (by rw [bracket]; decide)
    simp only [Focus.rank]
    omega
  | delivered => simp [Focus.rank]

/-- The events of all moves and the outcome at the end. -/
def run (s : State) : List Event × Outcome :=
  match _h : s.step with
  | .next t es => (es ++ (run t).1, (run t).2)
  | .stop o es => (es, o)
termination_by s.measure
decreasing_by all_goals exact measure_step _h

theorem run_of_next {s t : State} {es : List Event} (h : s.step = .next t es) :
    s.run = (es ++ t.run.1, t.run.2) := by
  rw [run]
  split
  · rename_i hs
    rw [h] at hs
    cases hs
    rfl
  · rename_i hs
    rw [h] at hs
    cases hs

theorem run_of_stop {s : State} {o : Outcome} {es : List Event} (h : s.step = .stop o es) :
    s.run = (es, o) := by
  rw [run]
  split
  · rename_i hs
    rw [h] at hs
    cases hs
  · rename_i hs
    rw [h] at hs
    cases hs
    rfl

theorem step_ne_fault (s : State) (f : Fault) (es : List Event) :
    s.step ≠ .stop (.fault f) es := by
  intro h
  cases effect_of_step h

theorem run_ne_fault (s : State) (f : Fault) : s.run.2 ≠ .fault f := by
  cases h : s.step with
  | stop o es =>
    rw [run_of_stop h]
    rintro rfl
    exact step_ne_fault s f es h
  | next t es =>
    rw [run_of_next h]
    exact run_ne_fault t f
termination_by s.measure
decreasing_by exact measure_step h

end State
end Parse
end PrefixCalc
