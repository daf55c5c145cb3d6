import PrefixCalc.Proofs.Lexeme.Concat
import PrefixCalc.Proofs.Parse.Refusal

/-! # Completing what was read before an error

Open operations can always be completed: each takes the operands that it lacks and then its
closing bracket, from the innermost to the outermost. So the words before a refused lexeme go
on to an expression, and no error is reported behind the place where the text first leaves
every expression. -/

namespace PrefixCalc
set_option autoImplicit false

/-- Further words make an expression of these. -/
def Viable (ts : List Text) : Prop :=
  ∃ us e, (∀ u ∈ us, Text.IsLexeme u []) ∧ Derives e (ts ++ us)

theorem isLexeme_closing : Text.IsLexeme [')'] [] := .bracket (by decide)

theorem isLexeme_name (i : Variable) : Text.IsLexeme i.name [] :=
  .word (name_ne_nil i) (isWord_of_mem_name i) (Text.stopsAt_nil _)

theorem isLexeme_symbol (op : Operator) : Text.IsLexeme op.symbol [] :=
  .word (symbol_ne_nil op) (isWord_of_mem_symbol op) (Text.stopsAt_nil _)

theorem derivesAll_replicate (i : Variable) (k : Nat) :
    DerivesAll (List.replicate k (.var i)) (List.replicate k i.name) := by
  induction k with
  | zero => exact .nil
  | succ k ih => exact .cons (.var i) ih

theorem Arity.exists_accepts {a : Arity} {k : Nat} (h : ∀ n, a = .fixed n → k ≤ n) :
    ∃ m, a.accepts (k + m) = true := by
  cases a with
  | variadic => exact ⟨0, rfl⟩
  | fixed n =>
    have hk := h n rfl
    refine ⟨n - k, ?_⟩
    rw [accepts, beq_iff_eq]
    omega

namespace Viable
variable {ts us : List Text}

theorem of_derives {e : Expr} (h : Derives e ts) : Viable ts := by
  refine ⟨[], e, ?_, by rwa [List.append_nil]⟩
  intro u hu
  cases hu

theorem of_append (h : Viable (ts ++ us)) (hus : ∀ u ∈ us, Text.IsLexeme u []) : Viable ts := by
  obtain ⟨vs, e, hvs, he⟩ := h
  refine ⟨us ++ vs, e, ?_, by rwa [← List.append_assoc]⟩
  intro u hu
  rcases List.mem_append.1 hu with hu | hu
  · exact hus u hu
  · exact hvs u hu

theorem nil : Viable [] := by
  refine ⟨[Variable.x.name], .var .x, ?_, .var .x⟩
  intro u hu
  rw [List.mem_singleton.1 hu]
  exact isLexeme_name .x

/-- The operands of an operation, with those that it lacks and its bracket still to come. -/
theorem of_operands {op : Operator} {es : List Expr} (h : DerivesAll es ts)
    (bound : ∀ n, op.arity = .fixed n → es.length ≤ n) : Viable (['('] :: op.symbol :: ts) := by
  obtain ⟨m, hm⟩ := Arity.exists_accepts bound
  have hcount : op.arity.accepts (es ++ List.replicate m (Expr.var .x)).length = true := by
    rwa [List.length_append, List.length_replicate]
  have hnode := Derives.node hcount (h.append (derivesAll_replicate .x m))
  rw [List.append_assoc] at hnode
  refine ⟨_, _, ?_, hnode⟩
  intro u hu
  rcases List.mem_append.1 hu with hu | hu
  · rw [List.eq_of_mem_replicate hu]
    exact isLexeme_name .x
  · rw [List.mem_singleton.1 hu]
    exact isLexeme_closing

theorem opening : Viable [['(']] := by
  have hmean : Viable ([['(']] ++ [Operator.arithmeticMean.symbol]) :=
    of_operands .nil fun _ _ => Nat.zero_le _
  refine hmean.of_append ?_
  intro u hu
  rw [List.mem_singleton.1 hu]
  exact isLexeme_symbol _

/-- The further words follow the text, each after a blank. -/
theorem exists_parse {t : Text} (h : Viable t.words) : ∃ s e, parse (t ++ s) = .ok e := by
  obtain ⟨us, e, hus, he⟩ := h
  refine ⟨Text.spaced us, e, parse_eq_ok_iff.2 ?_⟩
  rw [Text.words_append (.inr (Text.stopsAt_spaced us)), Text.words_spaced hus]
  exact he

end Viable

namespace Parse

theorem Frame.ReadFrom.viable {f : Frame} {ms : List Lexeme} (hf : f.ReadFrom ms) :
    Viable (texts ms) := by
  cases hf with
  | mk opening operator operands bound =>
    rw [texts_cons, texts_cons, opening, operator]
    exact .of_operands operands bound

/-- What goes on to an operand does so behind an operation that takes another one. -/
theorem Frame.ReadFrom.viable_append {f : Frame} {ms : List Lexeme} {ts : List Text}
    (hf : f.ReadFrom ms) (more : f.wantsMore = true) (h : Viable ts) :
    Viable (texts ms ++ ts) := by
  obtain ⟨us, e, hus, he⟩ := h
  cases hf with
  | @mk ns opening operator operands _ =>
    have hviable := Viable.of_operands (operands.append (.singleton he)) (by
      intro n hn
      rw [List.length_append]
      exact Frame.wantsMore_iff.1 more n hn)
    rw [texts_cons, texts_cons, opening, operator]
    refine Viable.of_append ?_ hus
    rwa [List.append_assoc]

theorem StackReadFrom.viable {stack : List Frame} {ls : List Lexeme} {ts : List Text}
    (h : StackReadFrom stack ls) (ht : Viable ts) : Viable (texts ls ++ ts) := by
  induction h generalizing ts with
  | nil => exact ht
  | cons outer more inner ih =>
    rw [texts_append, List.append_assoc]
    exact ih (inner.viable_append more ht)

/-- The words before a refused lexeme go on to an expression. -/
theorem Refused.viable {ls : List Lexeme} {l : Lexeme} {cause : ParseError.Cause}
    (h : Refused ls l cause) : Viable (texts ls) := by
  cases h with
  | operationNotFound outer bracket =>
    rw [texts_append, texts_cons, bracket]
    exact outer.viable .opening
  | wrongConst => exact .nil
  | unknownLexeme outer =>
    rw [← List.append_nil (texts ls)]
    exact outer.viable .nil
  | wrongOperandsQty outer inner =>
    rw [texts_append]
    exact outer.viable inner.viable
  | wrongBracketSequence outer inner =>
    rw [texts_append]
    exact outer.viable inner.viable
  | wrongEnding complete => exact .of_derives complete

/-! ## The place of an error -/

theorem isLexeme_of_mem {t : Text} {l : Lexeme} (h : l ∈ t.lexemes) : Text.IsLexeme l.text [] := by
  obtain ⟨p, q, _, _, hl⟩ := (Remainder.of_ofText t).exists_piece h
  exact hl.alone

theorem words_take_of_reads {t : Text} {ls : List Lexeme} {l : Lexeme} (h : t.Reads ls l) :
    Text.words (t.take l.start) = texts ls := by
  rcases h.cases with ⟨ms, hall⟩ | ⟨hall, rfl⟩
  · rw [Text.words, Text.lexemes_take_start hall]
    rfl
  · change Text.words (t.take t.length) = _
    rw [List.take_length, Text.words, hall]
    rfl

/-- Of the lexemes before the refused one those before the reported place are the first. -/
theorem Refused.exists_before {t : Text} {ls : List Lexeme} {l : Lexeme}
    {cause : ParseError.Cause} (h : Refused ls l cause) (hr : t.Reads ls l) :
    ∃ ms ns, ls = ms ++ ns ∧
      Text.words (t.take (ParseError.start ⟨t, cause⟩)) = texts ms := by
  cases h with
  | @wrongOperandsQty stack f ls ms l n outer inner =>
    obtain ⟨rest, hall, _⟩ := hr
    cases inner with
    | @mk ns =>
      refine ⟨ls ++ [f.opening], f.operator :: ns, by simp, ?_⟩
      change Text.words (t.take f.opening.stop) = _
      have hcut : t.lexemes = ls ++ f.opening :: (f.operator :: ns ++ rest) := by
        rw [hall]
        simp
      rw [Text.words, Text.lexemes_take_stop hcut]
      rfl
  | _ => exact ⟨_, [], (List.append_nil _).symm, words_take_of_reads hr⟩

theorem Refused.viable_take {t : Text} {ls : List Lexeme} {l : Lexeme} {cause : ParseError.Cause}
    (h : Refused ls l cause) (hr : t.Reads ls l) :
    Viable (Text.words (t.take (ParseError.start ⟨t, cause⟩))) := by
  obtain ⟨ms, ns, hls, hwords⟩ := h.exists_before hr
  obtain ⟨rest, hall, _⟩ := hr
  have hviable := h.viable
  rw [hls, texts_append] at hviable
  rw [hwords]
  refine hviable.of_append ?_
  intro u hu
  obtain ⟨k, hk, rfl⟩ := List.mem_map.1 hu
  apply isLexeme_of_mem (t := t)
  rw [hall, hls]
  exact List.mem_append_left _ (List.mem_append_right _ hk)

end Parse

/-- The text before the place that an error reports goes on to a text that is parsed; where an
expression was complete it is parsed as it stands. -/
theorem completable_before_error {t : Text} {err : ParseError} (h : parse t = .error err) :
    (∃ s e, parse (t.take (err.position - 1) ++ s) = .ok e) ∧
      (err.kind = .wrongEnding → ∃ e, parse (t.take (err.position - 1)) = .ok e) := by
  by_cases ht : t = []
  · subst ht
    rw [Parse.parse_nil] at h
    cases h
    have hviable : Viable (Text.words []) := by
      rw [Text.words_of_isBlanks Text.isBlanks_nil]
      exact .nil
    exact ⟨hviable.exists_parse, fun hk => by cases hk⟩
  obtain ⟨source, cause⟩ := err
  obtain ⟨rfl, ls, l, hr, hrefused⟩ := Parse.refused_of_parse ht h
  refine ⟨(hrefused.viable_take hr).exists_parse, ?_⟩
  intro hk
  cases hrefused with
  | @wrongEnding e ls l complete =>
    refine ⟨e, parse_eq_ok_iff.2 ?_⟩
    rw [← Parse.words_take_of_reads hr] at complete
    exact complete
  | _ => cases hk

/-- Both operations are still open at the end, the inner one with one operand. -/
theorem completable_before_end :
    parse "(+ (geom-mean x".toList =
      .error ⟨"(+ (geom-mean x".toList, .wrongBracketSequence 15⟩ ∧
    (∃ s e, parse ("(+ (geom-mean x".toList.take (16 - 1) ++ s) = .ok e) ∧
      (ErrorKind.wrongBracketSequence = .wrongEnding →
        ∃ e, parse ("(+ (geom-mean x".toList.take (16 - 1)) = .ok e) := by
  have h : parse "(+ (geom-mean x".toList =
      .error ⟨"(+ (geom-mean x".toList, .wrongBracketSequence 15⟩ := by
    have hs := Parse.State.Steps.cons (s := Parse.State.start "(+ (geom-mean x".toList) rfl
      (.cons rfl (.cons rfl (.cons rfl (.cons rfl (.cons rfl (.cons rfl (.refl _)))))))
    apply Parse.parse_of_stop (by decide) hs
    rfl
  exact ⟨h, completable_before_error h⟩

end PrefixCalc
