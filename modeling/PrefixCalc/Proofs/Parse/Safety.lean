import PrefixCalc.Proofs.Parse.History

/-! # Every parse ends cleanly

In every state that the machine comes to the slot is empty where an expression starts, where
one has been completed, and where a lexeme is about to be pushed back; and no move is a fault.
So a parse gives an expression or one of the errors, and after an expression the slot is empty
and the cursor at the end of the text. -/

namespace PrefixCalc
set_option autoImplicit false

namespace Parse

/-- A state without a leak in the slot, whose next move is no fault: it pushes back onto an
empty slot only, compares with no missing count, builds no operation with a wrong number of
operands and reads no number from a text that is none. -/
structure State.Safe (s : State) : Prop where
  read : ∀ l, s.focus = .read l → s.cursor.pushed = none
  built : ∀ e, s.focus = .built e → s.cursor.pushed = none
  pushBack : ∀ f, s.focus = .collect f → s.cursor.next.2.pushed = none ∧
    (s.cursor.next.2.pushBack? s.cursor.next.1).isSome = true
  noFault : ∀ f es, s.step ≠ .stop (.fault f) es

theorem State.Follows.safe {t : Text} {s : State} (h : s.Follows t) : s.Safe where
  read := by
    intro l hl
    have hs := h.slot
    rwa [State.SlotFree, hl] at hs
  built := by
    intro e he
    have hs := h.slot
    rwa [State.SlotFree, he] at hs
  pushBack := by
    intro f _
    rw [Cursor.pushBack?_next]
    exact ⟨s.cursor.pushed_next, rfl⟩
  noFault := s.step_ne_fault

theorem pos_skipBlanks_of_atEnd {t : Text} {c : Cursor} (h : c.Over t)
    (hend : c.skipBlanks.atEnd = true) : c.skipBlanks.pos = t.length := by
  have hlen := h.remainder.skipBlanks.pos_add_length
  simp only [Cursor.atEnd, Cursor.skipBlanks, Bool.and_eq_true, List.isEmpty_iff] at hend
  rw [hend.2] at hlen
  exact hlen

theorem finish_cases (t : Text) (e : Expr) (c : Cursor) :
    (c.skipBlanks.atEnd = true ∧ finish t e c = .ok e) ∨
      (c.skipBlanks.atEnd = false ∧
        finish t e c = .error ⟨t, .wrongEnding c.skipBlanks.pos⟩) := by
  cases h : c.skipBlanks.atEnd with
  | true => exact .inl ⟨rfl, if_pos h⟩
  | false => exact .inr ⟨rfl, if_neg (by simp [h])⟩

/-- What a parse leaves: an expression with the cursor at the end, or an error. -/
theorem parse_result (t : Text) :
    (∃ e c, parse t = .ok e ∧ (State.start t).run.2 = .tree e c ∧ c.skipBlanks.pushed = none ∧
        c.skipBlanks.pos = t.length) ∨
      ∃ cause, parse t = .error ⟨t, cause⟩ := by
  by_cases ht : t = []
  · subst ht
    exact .inr ⟨_, parse_nil⟩
  obtain ⟨es, s, hs, ⟨e, c, rfl, hrun, hparse⟩ | ⟨cause, fs, _, hparse⟩⟩ := exists_end ht
  · have hf := hs.follows
    rcases finish_cases t e c with ⟨hend, hok⟩ | ⟨_, herr⟩
    · exact .inl ⟨e, c, hparse.trans hok, hrun, hf.slot, pos_skipBlanks_of_atEnd hf.place hend⟩
    · exact .inr ⟨_, hparse.trans herr⟩
  · exact .inr ⟨cause, hparse⟩

end Parse

/-- The machine comes to safe states only and to a last one, and the parse is an expression,
with an empty slot and the cursor at the end, or one error of the seven kinds. -/
theorem parse_ends_cleanly (t : Text) :
    (∀ es s, Parse.State.Steps (Parse.State.start t) es s → s.Safe) ∧
    (∃ es s o fs, Parse.State.Steps (Parse.State.start t) es s ∧ s.step = .stop o fs) ∧
    ((∃ e c, parse t = .ok e ∧ (Parse.State.start t).run.2 = .tree e c ∧
        c.skipBlanks.pushed = none ∧ c.skipBlanks.pos = t.length) ∨
      ∃ err, parse t = .error err ∧ err.source = t ∧ err.kind ∈ ErrorKind.all) := by
  refine ⟨fun es s hs => hs.follows.safe, ?_, ?_⟩
  · obtain ⟨es, s, fs, o, hs, hstop, _⟩ := (Parse.State.start t).exists_last
    exact ⟨es, s, o, fs, hs, hstop⟩
  · rcases Parse.parse_result t with hok | ⟨cause, herr⟩
    · exact .inl hok
    · exact .inr ⟨_, herr, rfl, ErrorKind.mem_all _⟩

end PrefixCalc
