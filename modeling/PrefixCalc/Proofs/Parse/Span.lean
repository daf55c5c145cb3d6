import PrefixCalc.Proofs.Parse.Safety

/-! # Where errors point

The span of an error lies in the text. It is the word that the error names, a whole lexeme or
the empty one at the end; the operator with the blanks between its bracket and it; the place
of a lexeme that is no closing bracket; or the rest of the text after a complete expression.
The pointer is the text with a marker at each end of the span. -/

namespace PrefixCalc
set_option autoImplicit false

namespace Text

/-- The word is the lexeme of the text at the place, or the empty one at the end. -/
def NamesAt (t : Text) (i n : Nat) (w : Text) : Prop :=
  (t.drop i).take n = w ∧ (⟨w, i⟩ ∈ t.lexemes ∨ w = [] ∧ i = t.length)

/-- The lexeme before the place, of which the first word is the text and the second the one at
the place. -/
def FollowsAt (t : Text) (i : Nat) (before w : Text) : Prop :=
  ∃ ls l, l.text = before ∧
    ((∃ ms, t.lexemes = ls ++ l :: ⟨w, i⟩ :: ms) ∨ t.lexemes = ls ++ [l] ∧ w = [])

theorem slice_of_append {p w q : Text} :
    ((p ++ (w ++ q)).drop p.length).take w.length = w := by
  rw [List.drop_left, List.take_left]

theorem slice_of_mem_lexemes {t : Text} {l : Lexeme} (h : l ∈ t.lexemes) :
    l.start ≤ t.length ∧ (t.drop l.start).take l.text.length = l.text := by
  obtain ⟨p, q, rfl, hp, _⟩ := (Remainder.of_ofText t).exists_piece h
  rw [← hp]
  refine ⟨?_, slice_of_append⟩
  simp only [List.length_append]
  omega

/-- The two markers cut the text in three. -/
theorem mark_eq {t : Text} {i j : Nat} (hij : i ≤ j) (hi : i ≤ t.length) :
    ∃ a b c, t = a ++ b ++ c ∧ a.length = i ∧ (a ++ b).length = min t.length j ∧
      t.mark i j = a ++ openMarker ++ b ++ closeMarker ++ c := by
  have hab : t.take i ++ (t.take j).drop i = t.take j := by
    have := List.take_append_drop i (t.take j)
    rwa [List.take_take, Nat.min_eq_left hij] at this
  refine ⟨t.take i, (t.take j).drop i, t.drop j, ?_, ?_, ?_, rfl⟩
  · rw [hab, List.take_append_drop]
  · rw [List.length_take, Nat.min_eq_left hi]
  · rw [hab, List.length_take, Nat.min_comm]

end Text

namespace ParseError

/-- What the span of so many characters at a place of the text is, by the cause. -/
def Marks (t : Text) (i n : Nat) : Cause → Prop
  | .emptyExpression => t = [] ∧ n = 0
  | .unknownLexeme _ w => t.NamesAt i n w
  | .wrongConst _ w => t.NamesAt i n w
  | .operationNotFound _ w => t.NamesAt i n w ∧ t.FollowsAt i ['('] w
  | .wrongOperandsQty w _ _ _ _ =>
    (∃ j, i = j + 1 ∧ t[j]? = some '(') ∧
      ∃ blanks, Text.IsBlanks blanks ∧ (t.drop i).take n = blanks ++ w ∧
        ∃ op : Operator, w = op.symbol
  | .wrongBracketSequence _ =>
    n = 1 ∧ ((∃ l ∈ t.lexemes, l.start = i ∧ l.text ≠ [')']) ∨ i = t.length)
  | .wrongEnding _ => i + n = t.length ∧ 1 ≤ n ∧ ∃ c, t[i]? = some c ∧ Text.isBlank c = false

/-- The span of the error starts in its source, has a length, and is what the cause says. -/
def Points (err : ParseError) : Prop :=
  err.start ≤ err.source.length ∧
    ∃ n, err.stop = err.start + n ∧ Marks err.source err.start n err.cause

end ParseError

namespace Parse
open State

variable {t : Text}

theorem namesAt_of_mem {l : Lexeme} (h : l ∈ t.lexemes ∨ l = t.endLexeme) :
    l.start ≤ t.length ∧ t.NamesAt l.start l.text.length l.text := by
  rcases h with h | rfl
  · obtain ⟨hle, hslice⟩ := Text.slice_of_mem_lexemes h
    exact ⟨hle, hslice, .inl h⟩
  · refine ⟨Nat.le_refl _, ?_, .inr ⟨rfl, rfl⟩⟩
    simp [Text.endLexeme]

/-- What a cursor reads comes after the lexemes before it, or is the lexeme at the end. -/
theorem next_cases {c : Cursor} {ls : List Lexeme} (h : c.Over t)
    (hall : ls ++ c.lexemes = t.lexemes) :
    (∃ ms, t.lexemes = ls ++ c.next.1 :: ms) ∨ (t.lexemes = ls ∧ c.next.1 = t.endLexeme) := by
  by_cases hn : c.next.1.text = []
  · have hc := h.next_text_eq_nil_iff.1 hn
    rw [hc, List.append_nil] at hall
    exact .inr ⟨hall.symm, (h.next_of_lexemes_nil hc).1⟩
  · rw [h.lexemes_eq_cons hn] at hall
    exact .inl ⟨_, hall.symm⟩

theorem next_mem {c : Cursor} {ls : List Lexeme} (h : c.Over t)
    (hall : ls ++ c.lexemes = t.lexemes) :
    c.next.1 ∈ t.lexemes ∨ c.next.1 = t.endLexeme := by
  rcases next_cases h hall with ⟨ms, hms⟩ | ⟨_, hend⟩
  · rw [hms]
    exact .inl (List.mem_append_right _ List.mem_cons_self)
  · exact .inr hend

/-- A lexeme in focus was read from the text. -/
theorem State.Follows.read_mem {l : Lexeme} {stack : List Frame} {c : Cursor}
    (h : Follows t ⟨.read l, stack, c⟩) : l ∈ t.lexemes ∨ l = t.endLexeme := by
  obtain ⟨ls, ms, _, _, hall⟩ := h.history
  exact next_mem h.place hall

theorem points_operationNotFound {l : Lexeme} {stack : List Frame} {c : Cursor}
    (h : Follows t ⟨.read l, stack, c⟩) (hl : l.text = ['(']) :
    (⟨t, .operationNotFound c.next.1.start c.next.1.text⟩ : ParseError).Points := by
  obtain ⟨ls, ms, _, rfl, hall⟩ := h.history
  rw [h.lexemes_read (by rw [hl]; exact List.cons_ne_nil _ _), List.append_nil] at hall
  have hall' : ls ++ [l] ++ c.lexemes = t.lexemes := by simpa using hall
  obtain ⟨hle, hnames⟩ := namesAt_of_mem (next_mem h.over_cursor hall')
  refine ⟨hle, _, rfl, hnames, ls, l, hl, ?_⟩
  rcases next_cases h.over_cursor hall' with ⟨ms, hms⟩ | ⟨hms, hend⟩
  · exact .inl ⟨ms, by rw [hms, List.append_assoc]; rfl⟩
  · exact .inr ⟨hms, by rw [hend]; rfl⟩

theorem points_wrongOperandsQty {f : Frame} {stack : List Frame} {c : Cursor} (n : Nat)
    (h : Follows t ⟨.close f, stack, c⟩) :
    (⟨t, .wrongOperandsQty f.op.symbol n f.operands.length f.opening.stop
      f.operator.stop⟩ : ParseError).Points := by
  obtain ⟨ls, ms, _, hf, hall⟩ := h.history
  cases hf with
  | @mk ms opening operator _ _ =>
    have hlex : t.lexemes = ls ++ f.opening :: f.operator :: (ms ++ c.lexemes) := by
      rw [← hall]
      simp [before]
    obtain ⟨p, blanks, q, ht, hb, hp, hop⟩ := (Remainder.of_ofText t).exists_blanks hlex
    have hstop : f.opening.stop = p.length + 1 := by
      rw [Lexeme.stop, opening, hp]
      rfl
    have ht' : t = (p ++ ['(']) ++ ((blanks ++ f.op.symbol) ++ q) := by
      rw [ht, opening, operator]
      simp
    have hlen : (p ++ ['(']).length = f.opening.stop := by
      rw [hstop, List.length_append, List.length_singleton]
    refine ⟨?_, (blanks ++ f.op.symbol).length, ?_, ⟨p.length, hstop, ?_⟩, blanks, hb, ?_,
      f.op, rfl⟩
    · change f.opening.stop ≤ t.length
      rw [ht', ← hlen]
      exact (List.prefix_append _ _).length_le
    · change f.operator.stop = f.opening.stop + _
      rw [Lexeme.stop, hop, operator, List.length_append, Nat.add_assoc]
    · rw [ht', List.append_assoc]
      simp
    · change ((t.drop f.opening.stop).take _) = _
      rw [← hlen, ht']
      exact Text.slice_of_append

theorem points_wrongBracketSequence {f : Frame} {stack : List Frame} {c : Cursor}
    (h : Follows t ⟨.close f, stack, c⟩) (hl : c.next.1.text ≠ [')']) :
    (⟨t, .wrongBracketSequence c.next.1.start⟩ : ParseError).Points := by
  obtain ⟨ls, ms, _, _, hall⟩ := h.history
  have hmem := next_mem h.over_cursor hall
  refine ⟨(namesAt_of_mem hmem).1, 1, rfl, rfl, ?_⟩
  rcases hmem with hmem | hend
  · exact .inl ⟨_, hmem, rfl, hl⟩
  · exact .inr (by change c.next.1.start = _; rw [hend]; rfl)

theorem points_wrongEnding {c : Cursor} (h : c.Over t) (hs : c.pushed = none)
    (hend : c.skipBlanks.atEnd = false) :
    (⟨t, .wrongEnding c.skipBlanks.pos⟩ : ParseError).Points := by
  obtain ⟨p, ht, hp⟩ := h.remainder.skipBlanks
  have hstops : Text.StopsAt Text.isBlank c.remainder.skipBlanks.text :=
    Text.stopsAt_dropWhile _ _
  have hne : c.remainder.skipBlanks.text ≠ [] := by
    intro hnil
    simp [Cursor.atEnd, Cursor.skipBlanks, hs, hnil] at hend
  obtain ⟨a, u, hu⟩ := List.exists_cons_of_ne_nil hne
  rw [hu] at ht hstops
  have hlen : c.skipBlanks.pos + (u.length + 1) = t.length := by
    rw [ht, List.length_append, hp]
    rfl
  refine ⟨?_, u.length + 1, hlen.symm, hlen, Nat.le_add_left _ _, a, ?_, hstops a rfl⟩
  · change c.skipBlanks.pos ≤ t.length
    omega
  · change t[c.remainder.skipBlanks.pos]? = some a
    rw [ht, ← hp]
    simp

/-- An error in which the machine stops points at what the state says. -/
theorem State.Follows.points {s : State} {cause : ParseError.Cause} {es : List Event}
    (h : s.Follows t) (hs : s.step = .stop (.error cause) es) :
    (⟨t, cause⟩ : ParseError).Points := by
  cases effect_of_step hs with
  | operationNotFound bracket => exact points_operationNotFound h bracket
  | wrongConst =>
    obtain ⟨hle, hnames⟩ := namesAt_of_mem h.read_mem
    exact ⟨hle, _, rfl, hnames⟩
  | unknownLexeme =>
    obtain ⟨hle, hnames⟩ := namesAt_of_mem h.read_mem
    exact ⟨hle, _, rfl, hnames⟩
  | wrongOperandsQty => exact points_wrongOperandsQty _ h
  | wrongBracketSequence bracket => exact points_wrongBracketSequence h bracket

theorem points_of_parse {err : ParseError} (h : parse t = .error err) :
    err.source = t ∧ err.Points := by
  by_cases ht : t = []
  · subst ht
    rw [parse_nil] at h
    cases h
    exact ⟨rfl, Nat.le_refl _, 0, rfl, rfl, rfl⟩
  obtain ⟨es, s, hs, ⟨e, c, rfl, _, hparse⟩ | ⟨cause, fs, hstop, hparse⟩⟩ := exists_end ht
  · have hf := hs.follows
    rcases finish_cases t e c with ⟨_, hok⟩ | ⟨hend, herr⟩
    · rw [hparse, hok] at h
      cases h
    · rw [hparse, herr] at h
      cases h
      exact ⟨rfl, points_wrongEnding hf.place hf.slot hend⟩
  · rw [hparse] at h
    cases h
    exact ⟨rfl, hs.follows.points hstop⟩

end Parse

/-- The position of an error and the length of its span are those of the text that its cause
marks, and its pointer is the text with the markers at the two ends of the span, the second at
the end of the text if the span goes beyond. -/
theorem error_points_into_text {t : Text} {err : ParseError} (h : parse t = .error err) :
    ∃ i n : Nat, err.position = i + 1 ∧ err.length = n ∧ i ≤ t.length ∧
      ParseError.Marks t i n err.cause ∧
      ∃ a b c, t = a ++ b ++ c ∧ a.length = i ∧ (a ++ b).length = min t.length (i + n) ∧
        err.pointer = a ++ "|-->".toList ++ b ++ "<--|".toList ++ c := by
  obtain ⟨rfl, hle, n, hstop, hmarks⟩ := Parse.points_of_parse h
  refine ⟨err.start, n, rfl, ?_, hle, hmarks, ?_⟩
  · rw [ParseError.length, hstop]
    omega
  · rw [← hstop]
    exact Text.mark_eq (by omega) hle

/-- The operator with the blank before it, in an operand. -/
theorem error_points_at_short_operation :
    parse "(+ x ( negate))".toList =
      .error ⟨"(+ x ( negate))".toList, .wrongOperandsQty "negate".toList 1 0 6 13⟩ ∧
    ∃ i n : Nat, 7 = i + 1 ∧ (7 : Int) = n ∧ i ≤ 15 ∧
      ParseError.Marks "(+ x ( negate))".toList i n
        (.wrongOperandsQty "negate".toList 1 0 6 13) ∧
      ∃ a b c, "(+ x ( negate))".toList = a ++ b ++ c ∧ a.length = i ∧
        (a ++ b).length = min 15 (i + n) ∧
        "(+ x (|--> negate<--|))".toList =
          a ++ "|-->".toList ++ b ++ "<--|".toList ++ c := by
  have h : parse "(+ x ( negate))".toList =
      .error ⟨"(+ x ( negate))".toList, .wrongOperandsQty "negate".toList 1 0 6 13⟩ := by
    apply Parse.parse_of_error (by decide)
    have hs := Parse.State.Steps.cons (s := Parse.State.start "(+ x ( negate))".toList) rfl
      (.cons rfl (.cons rfl (.cons rfl (.cons rfl (.cons rfl (.cons rfl (.refl _)))))))
    rw [hs.run_eq, Parse.State.run_of_stop rfl]
    rfl
  exact ⟨h, error_points_into_text h⟩

end PrefixCalc
