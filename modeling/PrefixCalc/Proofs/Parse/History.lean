import PrefixCalc.Proofs.Grammar
import PrefixCalc.Proofs.Lexeme.Unread
import PrefixCalc.Proofs.Parse.Steps

/-! # What a state of the machine was read from

The lexemes of the text are, in every state, those that the state was read from and then those
before its cursor. The first part falls into the open operations, the outermost first: of each
its bracket, its operator and its complete operands. `State.Follows` is this invariant, with
the rule that the slot is in use only while an operation waits for its closing bracket. -/

namespace PrefixCalc.Parse
set_option autoImplicit false

def texts (ls : List Lexeme) : List Text := ls.map (·.text)

@[simp] theorem texts_nil : texts [] = [] := rfl

@[simp] theorem texts_cons (l : Lexeme) (ls : List Lexeme) :
    texts (l :: ls) = l.text :: texts ls := rfl

@[simp] theorem texts_append (ls ms : List Lexeme) : texts (ls ++ ms) = texts ls ++ texts ms :=
  List.map_append

/-- An open operation was read from its bracket, its operator and its operands, of which there
are not more than a fixed arity takes. -/
inductive Frame.ReadFrom : Frame → List Lexeme → Prop where
  | mk {f : Frame} {ls : List Lexeme} (opening : f.opening.text = ['('])
      (operator : f.operator.text = f.op.symbol) (operands : DerivesAll f.operands (texts ls))
      (bound : ∀ n, f.op.arity = .fixed n → f.operands.length ≤ n) :
      ReadFrom f (f.opening :: f.operator :: ls)

/-- The operations around the focus wait for another operand. The innermost is the first of
the stack and was read last. -/
inductive StackReadFrom : List Frame → List Lexeme → Prop where
  | nil : StackReadFrom [] []
  | cons {f : Frame} {stack : List Frame} {ls ms : List Lexeme}
      (outer : StackReadFrom stack ls) (more : f.wantsMore = true) (inner : f.ReadFrom ms) :
      StackReadFrom (f :: stack) (ls ++ ms)

namespace State

/-- The lexemes that the focus was read from; the lexeme of a focus that reads is still ahead. -/
def focusReadFrom : Focus → List Lexeme → Prop
  | .read _, ls => ls = []
  | .collect f, ls => f.ReadFrom ls
  | .close f, ls => f.ReadFrom ls
  | .built e, ls => Derives e (texts ls)

/-- The cursor as it was before the lexeme in focus was read. -/
def before (s : State) : Cursor :=
  match s.focus with
  | .read l => ⟨s.cursor.remainder, some l⟩
  | _ => s.cursor

/-- The slot is in use only while an operation waits for its closing bracket. -/
def SlotFree (s : State) : Prop :=
  match s.focus with
  | .close _ => True
  | _ => s.cursor.pushed = none

structure Follows (t : Text) (s : State) : Prop where
  slot : s.SlotFree
  place : s.before.Over t
  history : ∃ ls ms, StackReadFrom s.stack ls ∧ focusReadFrom s.focus ms ∧
    ls ++ ms ++ s.before.lexemes = t.lexemes

end State

theorem Frame.wantsMore_iff {f : Frame} :
    f.wantsMore = true ↔ ∀ n, f.op.arity = .fixed n → f.operands.length < n := by
  cases ha : f.op.arity with
  | variadic => simp [wantsMore, ha, Arity.wantsMore]
  | fixed n => simp [wantsMore, ha, Arity.wantsMore]

theorem Frame.ReadFrom.push {f : Frame} {e : Expr} {ls ms : List Lexeme} (hf : f.ReadFrom ls)
    (more : f.wantsMore = true) (he : Derives e (texts ms)) :
    (f.push e).ReadFrom (ls ++ ms) := by
  cases hf with
  | @mk ls opening operator operands bound =>
    have hops : DerivesAll (f.push e).operands (texts (ls ++ ms)) := by
      rw [texts_append]
      exact operands.append (.singleton he)
    refine .mk (f := f.push e) opening operator hops ?_
    intro n hn
    rw [Frame.push, List.length_append]
    exact Frame.wantsMore_iff.1 more n hn

namespace State

theorem follows_start (t : Text) : (start t).Follows t where
  slot := (Cursor.ofText t).pushed_next
  place := (Cursor.over_ofText t).putBack
  history := ⟨[], [], .nil, rfl, (Cursor.over_ofText t).lexemes_putBack⟩

/-- A lexeme in focus is the first of those ahead. -/
theorem Follows.lexemes_read {t : Text} {l : Lexeme} {stack : List Frame} {c : Cursor}
    (h : Follows t ⟨.read l, stack, c⟩) (hl : l.text ≠ []) :
    (before ⟨.read l, stack, c⟩).lexemes = l :: c.lexemes := by
  have hs : c.pushed = none := h.slot
  simp [before, Cursor.lexemes, hl, hs]

theorem Follows.over_cursor {t : Text} {s : State} (h : Follows t s) : s.cursor.Over t := by
  obtain ⟨focus, stack, c⟩ := s
  cases focus with
  | read l =>
    have hs : c.pushed = none := h.slot
    exact ⟨h.place.remainder, fun k hk => by rw [hs] at hk; cases hk⟩
  | collect f => exact h.place
  | close f => exact h.place
  | built e => exact h.place

/-- The lexeme after a closing bracket or an operator is read from the text. -/
theorem Follows.lexemes_cursor {t : Text} {s : State} (h : Follows t s)
    (hl : s.cursor.next.1.text ≠ []) :
    s.cursor.lexemes = s.cursor.next.1 :: s.cursor.next.2.lexemes :=
  h.over_cursor.lexemes_eq_cons hl

theorem Follows.built {t : Text} {l : Lexeme} {stack : List Frame} {c : Cursor} {e : Expr}
    (h : Follows t ⟨.read l, stack, c⟩) (hl : l.text ≠ []) (he : Derives e [l.text]) :
    Follows t ⟨.built e, stack, c⟩ := by
  obtain ⟨ls, ms, hstack, rfl, hall⟩ := h.history
  refine ⟨h.slot, h.over_cursor, ls, [l], hstack, he, ?_⟩
  rw [h.lexemes_read hl] at hall
  simpa [before] using hall

/-- Every move keeps the invariant. -/
theorem Follows.step {t : Text} {s s' : State} {es : List Event} (h : Follows t s)
    (hs : s.step = .next s' es) : Follows t s' := by
  cases effect_of_step hs with
  | @opened l stack c op bracket symbol =>
    obtain ⟨ls, ms, hstack, rfl, hall⟩ := h.history
    have hop := Operator.symbol_of_ofSymbol? symbol
    have hl : l.text ≠ [] := by rw [bracket]; exact List.cons_ne_nil _ _
    have hn : c.next.1.text ≠ [] := by rw [← hop]; exact symbol_ne_nil op
    refine ⟨c.pushed_next, h.over_cursor.next, ls, [l, c.next.1], hstack,
      .mk bracket hop.symm .nil (fun _ _ => Nat.zero_le _), ?_⟩
    rw [h.lexemes_read hl, h.lexemes_cursor hn] at hall
    simpa [before] using hall
  | var name =>
    have hi := Variable.name_of_ofName? name
    refine h.built ?_ (hi ▸ .var _)
    rw [← hi]
    cases ‹Variable› <;> decide
  | const start value =>
    exact h.built (startsConst_ne_nil start)
      (.const start (isNumber_of_toBinary64? value) value)
  | @operand f stack c more starts =>
    obtain ⟨ls, ms, hstack, hf, hall⟩ := h.history
    refine ⟨c.pushed_next, h.over_cursor.putBack, ls ++ ms, [], .cons hstack more hf, rfl, ?_⟩
    rw [List.append_nil, ← hall]
    exact congrArg (ls ++ ms ++ ·) h.over_cursor.lexemes_putBack
  | @pushedBack f stack c d more starts back =>
    obtain ⟨ls, ms, hstack, hf, hall⟩ := h.history
    rw [Cursor.pushBack?_next] at back
    cases back
    refine ⟨trivial, h.over_cursor.putBack, ls, ms, hstack, hf, ?_⟩
    rw [← hall]
    exact congrArg (ls ++ ms ++ ·) h.over_cursor.lexemes_putBack
  | full more => exact ⟨trivial, h.place, h.history⟩
  | @closed f stack c bracket count =>
    obtain ⟨ls, ms, hstack, hf, hall⟩ := h.history
    cases hf with
    | @mk ms opening operator operands bound =>
      -- the bracket joins what the operation was read from
      refine ⟨c.pushed_next, h.over_cursor.next, ls, f.opening :: f.operator :: (ms ++ [c.next.1]),
        hstack, ?_, ?_⟩
      · have hn := Derives.node count operands
        simpa [focusReadFrom, opening, operator, bracket] using hn
      · have hl : c.next.1.text ≠ [] := by rw [bracket]; exact List.cons_ne_nil _ _
        change _ ++ c.lexemes = _ at hall
        rw [h.lexemes_cursor hl] at hall
        simpa [before] using hall
  | @delivered e f stack c =>
    obtain ⟨ls, ms, hstack, he, hall⟩ := h.history
    cases hstack with
    | @cons _ _ ls ns outer more inner =>
      refine ⟨h.slot, h.place, ls, ns ++ ms, outer, inner.push more he, ?_⟩
      simpa [before] using hall

theorem Steps.follows {t : Text} {s : State} {es : List Event} (h : Steps (start t) es s) :
    s.Follows t :=
  h.preserves Follows.step (follows_start t)

end State
end PrefixCalc.Parse
