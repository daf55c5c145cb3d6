import PrefixCalc.Proofs.Lexeme.Pushback
import PrefixCalc.Proofs.Parse.History

/-! # Parsing uses up its text

A move leaves unread what was unread before it, or all of it but the first lexeme, and the
cursor never moves back. An expression is begun only with a lexeme that is taken for good, so
that fewer lexemes are unread at each expression than at those begun before it, wherever the two
stand to each other; and operands are collected only as long as there are lexemes to take. -/

namespace PrefixCalc
set_option autoImplicit false

theorem Remainder.Of.pos_le {t : Text} {r : Remainder} (h : r.Of t) : r.pos ≤ t.length := by
  have hlen := h.pos_add_length
  omega

theorem Cursor.pos_le_next (c : Cursor) : c.pos ≤ c.next.2.pos := pos_le_act ⟨c, none⟩ .next

namespace Parse.State
variable {t : Text} {s u v w : State} {es fs gs : List Event}

/-- The second state comes after the first, by one move or more. -/
def Later (s v : State) : Prop := ∃ es u fs, s.step = .next u es ∧ Steps u fs v

/-- The cursor passes the character at the place between the two states. -/
def Passes (s u : State) (k : Nat) : Prop := s.cursor.pos ≤ k ∧ k < u.cursor.pos

/-- A turn of the collection of operands: a lexeme is taken, to begin another operand with it, or
the collection is over and all that was unread still is. -/
inductive Turn (s : State) (f : Frame) : Prop where
  | taken {u : State} {l : Lexeme} (move : s.step = .next u []) (focus : u.focus = .read l)
      (stack : u.stack = f :: s.stack) (unread : s.cursor.lexemes = l :: u.cursor.lexemes)
  | left {u : State} (move : s.step = .next u []) (focus : u.focus = .close f)
      (stack : u.stack = s.stack) (unread : u.cursor.lexemes = s.cursor.lexemes)

/-- How a state stands to the states after it. -/
structure Progresses (t : Text) (s : State) : Prop where
  within : s.cursor.pos ≤ t.length
  /-- A last move may read one more lexeme, or blanks are skipped behind the expression. -/
  ahead : s.cursor.pos ≤ s.cursor.next.2.pos ∧ s.cursor.next.2.pos ≤ t.length
  blanks : s.cursor.pos ≤ s.cursor.skipBlanks.pos ∧ s.cursor.skipBlanks.pos ≤ t.length
  forward : ∀ v, Later s v → s.cursor.pos ≤ v.cursor.pos
  unread : ∀ v, Later s v → v.cursor.lexemes <:+ s.cursor.lexemes
  /-- Fewer lexemes are unread at a later expression, be it an operand of this one or stand it
  behind this one. -/
  fewer : ∀ v l k, s.focus = .read l → Later s v → v.focus = .read k →
    v.cursor.lexemes.length < s.cursor.lexemes.length
  turn : ∀ f, s.focus = .collect f → s.Turn f
  /-- At the end the empty lexeme is read, as often as one reads, and no operand is begun. -/
  atEnd : s.cursor.lexemes = [] → s.cursor.next.1 = t.endLexeme ∧ s.cursor.next.2.lexemes = [] ∧
    ∀ f, s.focus = .collect f → ∃ u, s.step = .next u [] ∧ u.focus = .close f
  once : ∀ u v w es fs, s.step = .next u es → (v = u ∨ Later u v) → v.step = .next w fs →
    ∀ k, Passes s u k → ¬ Passes v w k

/-! ## Moves -/

theorem pos_le_step (h : s.step = .next u es) : s.cursor.pos ≤ u.cursor.pos := by
  cases effect_of_step h with
  | opened | operand | closed => exact Cursor.pos_le_next _
  | var | const | full | delivered => exact Nat.le_refl _
  | @pushedBack _ _ c _ _ _ back =>
    rw [Cursor.pushBack?_next] at back
    cases back
    exact c.pos_le_next

/-- A move takes the first of the unread lexemes or none, and none only where it begins no
expression. -/
theorem Follows.lexemes_step (h : Follows t s) (hs : s.step = .next u es) :
    (u.cursor.lexemes = s.cursor.lexemes ∧ ∀ l, u.focus ≠ .read l) ∨
      ∃ l, s.cursor.lexemes = l :: u.cursor.lexemes := by
  cases effect_of_step hs with
  | @opened _ _ c op _ symbol =>
    have hop : c.next.1.text ≠ [] := by
      rw [← Operator.symbol_of_ofSymbol? symbol]
      exact symbol_ne_nil op
    exact .inr ⟨_, h.lexemes_cursor hop⟩
  | var | const | full | delivered => exact .inl ⟨rfl, fun _ => nofun⟩
  | operand _ starts => exact .inr ⟨_, h.lexemes_cursor (startsOperand_ne_nil starts)⟩
  | pushedBack _ _ back =>
    rw [Cursor.pushBack?_next] at back
    cases back
    exact .inl ⟨h.over_cursor.lexemes_putBack, fun _ => nofun⟩
  | @closed _ _ c bracket =>
    have hclosing : c.next.1.text ≠ [] := by
      rw [bracket]
      exact List.cons_ne_nil _ _
    exact .inr ⟨_, h.lexemes_cursor hclosing⟩

theorem Follows.suffix_step (h : Follows t s) (hs : s.step = .next u es) :
    u.cursor.lexemes <:+ s.cursor.lexemes := by
  rcases h.lexemes_step hs with ⟨heq, _⟩ | ⟨l, hcons⟩
  · exact ⟨[], heq⟩
  · rw [hcons]
    exact List.suffix_cons _ _

/-- A machine that may take another operand takes the lexeme that begins one, or pushes back
what begins none. -/
theorem Follows.turn (h : Follows t s) {f : Frame} (hf : s.focus = .collect f) : s.Turn f := by
  obtain ⟨focus, stack, c⟩ := s
  cases hf
  cases hstep : State.step ⟨.collect f, stack, c⟩ with
  | stop o es => cases effect_of_step hstep
  | next u es =>
    cases effect_of_step hstep with
    | operand _ starts =>
      exact .taken hstep rfl rfl (h.lexemes_cursor (startsOperand_ne_nil starts))
    | pushedBack _ _ back =>
      rw [Cursor.pushBack?_next] at back
      cases back
      exact .left hstep rfl rfl h.over_cursor.lexemes_putBack
    | full => exact .left hstep rfl rfl rfl

/-! ## Runs -/

theorem Steps.pos_le (h : Steps s es v) : s.cursor.pos ≤ v.cursor.pos := by
  induction h with
  | refl => exact Nat.le_refl _
  | cons head _ ih => exact Nat.le_trans (pos_le_step head) ih

theorem Follows.suffix_steps (h : Follows t s) (hs : Steps s es v) :
    v.cursor.lexemes <:+ s.cursor.lexemes := by
  induction hs with
  | refl => exact List.suffix_rfl
  | cons head _ ih => exact (ih (h.step head)).trans (h.suffix_step head)

/-- The last move before an expression is begun takes a lexeme, and none gives one back. -/
theorem Follows.lexemes_lt (h : Follows t s) (head : s.step = .next u es) (tail : Steps u fs v)
    {k : Lexeme} (hk : v.focus = .read k) : v.cursor.lexemes.length < s.cursor.lexemes.length := by
  induction tail generalizing s es with
  | refl =>
    rcases h.lexemes_step head with ⟨_, hread⟩ | ⟨l, hcons⟩
    · exact absurd hk (hread k)
    · rw [hcons]
      exact Nat.lt_succ_self _
  | cons next _ ih =>
    have hlt := ih (h.step head) next hk
    exact Nat.lt_of_lt_of_le hlt (h.suffix_step head).length_le

theorem Later.pos_le (h : Later s v) : s.cursor.pos ≤ v.cursor.pos := by
  obtain ⟨es, u, fs, head, tail⟩ := h
  exact Nat.le_trans (pos_le_step head) tail.pos_le

theorem Follows.progresses (h : Follows t s) : Progresses t s where
  within := h.over_cursor.remainder.pos_le
  ahead := ⟨s.cursor.pos_le_next, h.over_cursor.next.remainder.pos_le⟩
  blanks := ⟨Nat.le_add_right _ _, h.over_cursor.remainder.skipBlanks.pos_le⟩
  forward v hv := hv.pos_le
  unread v hv := by
    obtain ⟨es, u, fs, head, tail⟩ := hv
    exact ((h.step head).suffix_steps tail).trans (h.suffix_step head)
  fewer v l k hl hv hk := by
    obtain ⟨es, u, fs, head, tail⟩ := hv
    exact h.lexemes_lt head tail hk
  turn f hf := h.turn hf
  atEnd hnil := by
    obtain ⟨hend, hrest⟩ := h.over_cursor.next_of_lexemes_nil hnil
    refine ⟨hend, hrest, ?_⟩
    intro f hf
    cases h.turn hf with
    | taken _ _ _ unread =>
      rw [hnil] at unread
      cases unread
    | left move focus => exact ⟨_, move, focus⟩
  once u v w es fs hu hv hw k hsu hvw := by
    have hle : u.cursor.pos ≤ v.cursor.pos := by
      rcases hv with rfl | hv
      · exact Nat.le_refl _
      · exact hv.pos_le
    exact absurd (Nat.lt_of_lt_of_le hsu.2 hle) (Nat.not_lt.2 hvw.1)

end Parse.State

/-- No state of the machine starts an endless run, and every text comes to a last state. On the
way to it fewer lexemes are unread at each expression than at those begun before it, a turn of
the collection of operands takes a lexeme for good or is the last one, at the end of the text
as everywhere, and every character is passed once at most. -/
theorem parsing_uses_up_text (t : Text) :
    (WellFounded fun u s : Parse.State => ∃ es, s.step = .next u es) ∧
    (∃ es s o fs, Parse.State.Steps (Parse.State.start t) es s ∧ s.step = .stop o fs) ∧
    ∀ es s, Parse.State.Steps (Parse.State.start t) es s → s.Progresses t := by
  refine ⟨?_, ?_, fun es s hs => hs.follows.progresses⟩
  · refine Subrelation.wf ?_ (InvImage.wf Parse.State.measure Nat.lt_wfRel.wf)
    rintro u s ⟨es, hs⟩
    exact Parse.State.measure_step hs
  · obtain ⟨es, s, fs, o, hs, hstop, _⟩ := (Parse.State.start t).exists_last
    exact ⟨es, s, o, fs, hs, hstop⟩

end PrefixCalc
