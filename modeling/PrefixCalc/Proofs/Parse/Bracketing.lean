import Mathlib.Data.List.Forall2
import PrefixCalc.Proofs.Lexeme.Concat
import PrefixCalc.Proofs.Parse.Refusal

/-! # Texts of operands put into brackets

Texts that are parsed can be put into brackets behind the symbol of an operator, a blank before
each. The arity alone decides what the result is: the operation on the parsed operands, a report
of too few operands, or one of a closing bracket that is missing before the first operand that is
too many. -/

namespace PrefixCalc
set_option autoImplicit false

namespace Text

/-- An operation before its closing bracket: the operands behind the symbol, each after a blank. -/
def opened (op : Operator) (ts : List Text) : Text := '(' :: (op.symbol ++ spaced ts)

def bracketed (op : Operator) (ts : List Text) : Text := opened op ts ++ [')']

theorem spaced_cons (t : Text) (ts : List Text) : spaced (t :: ts) = ' ' :: (t ++ spaced ts) := rfl

theorem spaced_append (ts us : List Text) : spaced (ts ++ us) = spaced ts ++ spaced us :=
  List.flatMap_append

/-- No word goes from one of the texts over into the next. -/
theorem words_spaced_eq (ts : List Text) : (spaced ts).words = ts.flatMap words := by
  induction ts with
  | nil => exact words_of_isBlanks isBlanks_nil
  | cons t ts ih =>
    have htail := words_append (p := t) (.inr (stopsAt_spaced ts))
    rw [ih] at htail
    exact (words_blanks_append (t ++ spaced ts) isBlanks_space).trans htail

theorem stopsAt_spaced_append_closing (ts : List Text) : StopsAt isWord (spaced ts ++ [')']) := by
  cases ts with
  | nil => exact stopsAt_closing []
  | cons t ts => exact stopsAt_spaced (t :: ts)

theorem lexemes_opened (op : Operator) (ts : List Text) :
    (opened op ts).lexemes = ⟨['('], 0⟩ :: ⟨op.symbol, 1⟩ ::
      Remainder.lexemes ⟨spaced ts, 1 + op.symbol.length⟩ := by
  have hopening : (opened op ts).lexemes =
      ⟨['('], 0⟩ :: Remainder.lexemes ⟨op.symbol ++ spaced ts, 1⟩ :=
    Remainder.lexemes_cons_bracket _ 0 (by decide)
  rw [hopening, Remainder.lexemes_word_append 1 (symbol_ne_nil op) (isWord_of_mem_symbol op)
    (stopsAt_spaced ts)]

theorem lexemes_opened_append {s : Text} (op : Operator) (ts : List Text)
    (hs : StopsAt isWord s) :
    (opened op ts ++ s).lexemes =
      (opened op ts).lexemes ++ Remainder.lexemes ⟨s, (opened op ts).length⟩ := by
  have h := Remainder.lexemes_append (p := opened op ts) 0 (.inr hs)
  rw [Nat.zero_add] at h
  exact h

theorem lexemes_bracketed (op : Operator) (ts : List Text) :
    (bracketed op ts).lexemes = (opened op ts).lexemes ++ [⟨[')'], (opened op ts).length⟩] := by
  have hlast : Remainder.lexemes ⟨[')'], (opened op ts).length⟩ = _ :=
    Remainder.lexemes_cons_bracket [] _ (by decide)
  rw [Remainder.lexemes_of_isBlanks _ isBlanks_nil] at hlast
  exact (lexemes_opened_append op ts (stopsAt_closing [])).trans (congrArg _ hlast)

theorem bracketed_append (op : Operator) (ts us : List Text) (t : Text) :
    bracketed op (ts ++ t :: us) = opened op ts ++ ' ' :: (t ++ (spaced us ++ [')'])) := by
  simp only [bracketed, opened, spaced_append, spaced_cons, List.cons_append, List.append_assoc]

/-- The first lexeme of a text is the first one behind a blank, too. -/
theorem exists_lexemes_space_append {t s : Text} {l : Lexeme} {ls : List Lexeme} (pos : Nat)
    (h : t.lexemes = l :: ls) (hs : StopsAt isWord s) :
    ∃ ms, Remainder.lexemes ⟨' ' :: (t ++ s), pos⟩ = ⟨l.text, pos + 1 + l.start⟩ :: ms := by
  obtain ⟨blanks, rest, ht, hb, hl, hstart, _⟩ :=
    Remainder.exists_text_of_lexemes_cons (r := Remainder.ofText t) h
  dsimp only [Remainder.ofText] at ht hstart
  have hl' : IsLexeme l.text (rest ++ s) := hl.append (.inr hs)
  have hlex := Remainder.lexemes_of_isLexeme pos (isBlanks_append isBlanks_space hb) hl'
  have htext : ' ' :: (t ++ s) = ([' '] ++ blanks) ++ (l.text ++ (rest ++ s)) := by
    rw [ht]
    simp
  have hplace : pos + ([' '] ++ blanks).length = pos + 1 + l.start := by
    rw [hstart, List.length_append, List.length_singleton]
    omega
  rw [htext, hlex, hplace]
  exact ⟨_, rfl⟩

end Text

/-! ## Parsed operands -/

/-- The texts are parsed to these expressions, each on its own. -/
def ParseTo (ts : List Text) (es : List Expr) : Prop :=
  List.Forall₂ (fun t e => parse t = .ok e) ts es

theorem ParseTo.derivesAll {ts : List Text} {es : List Expr} (h : ParseTo ts es) :
    DerivesAll es (ts.flatMap Text.words) := by
  induction h with
  | nil => exact .nil
  | cons head _ ih => exact .cons (parse_eq_ok_iff.1 head) ih

theorem exists_lexemes_of_parse {t : Text} {e : Expr} (h : parse t = .ok e) :
    ∃ l ls, t.lexemes = l :: ls ∧ Text.startsOperand l.text = true := by
  obtain ⟨w, ws, hwords, hw⟩ := (parse_eq_ok_iff.1 h).exists_head
  obtain ⟨l, ls, hls, rfl, _⟩ := List.map_eq_cons_iff.1 hwords
  exact ⟨l, ls, hls, hw⟩

namespace Parse

theorem readFrom_opened (op : Operator) {ts : List Text} {es : List Expr} (h : ParseTo ts es)
    (bound : ∀ n, op.arity = .fixed n → es.length ≤ n) :
    Frame.ReadFrom ⟨⟨['('], 0⟩, ⟨op.symbol, 1⟩, op, es⟩ (Text.opened op ts).lexemes := by
  rw [Text.lexemes_opened]
  refine .mk rfl rfl ?_ bound
  have hwords : texts (Remainder.lexemes ⟨Text.spaced ts, 1 + op.symbol.length⟩) =
      ts.flatMap Text.words := by
    rw [← Text.words_spaced_eq]
    exact Text.words_eq_of_pos _ _
  rw [hwords]
  exact h.derivesAll

theorem bracketed_ne_nil (op : Operator) (ts : List Text) : Text.bracketed op ts ≠ [] :=
  List.cons_ne_nil _ _

theorem parse_bracketed {op : Operator} {ts : List Text} {es : List Expr} (h : ParseTo ts es)
    (count : op.arity.accepts es.length = true) :
    parse (Text.bracketed op ts) = .ok (.node op es) := by
  have hframe := readFrom_opened op h fun _ hn => Nat.le_of_eq (Arity.eq_of_accepts count hn)
  have hwords : Text.words (Text.bracketed op ts) =
      texts (Text.opened op ts).lexemes ++ [[')']] := by
    rw [Text.words, Text.lexemes_bracketed]
    exact texts_append _ _
  rw [parse_eq_ok_iff, hwords]
  generalize (Text.opened op ts).lexemes = ls at hframe
  cases hframe with
  | mk _ _ operands => exact .node count operands

theorem parse_bracketed_short {op : Operator} {ts : List Text} {es : List Expr} {k : Nat}
    (h : ParseTo ts es) (arity : op.arity = .fixed k) (short : es.length < k) :
    parse (Text.bracketed op ts) = .error ⟨Text.bracketed op ts,
      .wrongOperandsQty op.symbol k es.length 1 (1 + op.symbol.length)⟩ := by
  have hframe := readFrom_opened op h (by
    intro n hn
    rw [arity] at hn
    cases hn
    exact Nat.le_of_lt short)
  exact parse_of_refused (bracketed_ne_nil op ts)
    (Text.reads_of_lexemes (Text.lexemes_bracketed op ts))
    (.wrongOperandsQty .nil hframe rfl arity short)

theorem parse_bracketed_long {op : Operator} {ts : List Text} {es : List Expr} {t : Text}
    {e : Expr} {l : Lexeme} {ls : List Lexeme} (us : List Text) (h : ParseTo ts es)
    (ht : parse t = .ok e) (arity : op.arity = .fixed es.length) (hl : t.lexemes = l :: ls) :
    parse (Text.bracketed op (ts ++ t :: us)) = .error ⟨Text.bracketed op (ts ++ t :: us),
      .wrongBracketSequence ((Text.opened op ts).length + 1 + l.start)⟩ := by
  have hframe := readFrom_opened op h (by
    intro n hn
    rw [arity] at hn
    cases hn
    exact Nat.le_refl _)
  have hspace := Text.stopsAt_spaced_append_closing (t :: us)
  rw [Text.spaced_cons, List.cons_append, List.append_assoc] at hspace
  obtain ⟨ms, hms⟩ := Text.exists_lexemes_space_append (Text.opened op ts).length hl
    (Text.stopsAt_spaced_append_closing us)
  have hall := Text.lexemes_opened_append op ts hspace
  rw [← Text.bracketed_append, hms] at hall
  -- the operation is full, so that only its closing bracket could follow
  have hfull : Frame.wantsMore ⟨⟨['('], 0⟩, ⟨op.symbol, 1⟩, op, es⟩ = false := by
    simp [Frame.wantsMore, arity, Arity.wantsMore]
  have hbracket : l.text ≠ [')'] := by
    intro hclosing
    obtain ⟨k, ks, hk, hstarts⟩ := exists_lexemes_of_parse ht
    rw [hl] at hk
    cases hk
    rw [hclosing, startsOperand_closing] at hstarts
    cases hstarts
  refine parse_of_refused (bracketed_ne_nil op _) (Text.reads_of_lexemes hall)
    (.wrongBracketSequence .nil hframe ?_ hbracket)
  intro hm
  rw [hfull] at hm
  cases hm

end Parse

/-- Parsed texts in brackets behind a symbol are the operation on what they are parsed to, if the
arity accepts their number. Of too few the operation is reported, and of too many the place of
the first one that a fixed arity does not take. -/
theorem bracketed_operands_by_arity (op : Operator) {ts : List Text} {es : List Expr}
    (h : ParseTo ts es) :
    (op.arity.accepts ts.length = true →
      parse (Text.bracketed op ts) = .ok (.node op es)) ∧
    (∀ k, op.arity = .fixed k → ts.length < k →
      ∃ err, parse (Text.bracketed op ts) = .error err ∧ err.kind = .wrongOperandsQty ∧
        err.payload = ⟨none, some op.symbol, some k, some ts.length⟩ ∧ err.position = 2 ∧
        err.length = op.symbol.length) ∧
    ∀ (k : Nat) (hk : k < ts.length), op.arity = .fixed k →
      ∃ q l ls err, Text.bracketed op ts = Text.opened op (ts.take k) ++ ' ' :: (ts[k] ++ q) ∧
        ts[k].lexemes = l :: ls ∧ parse (Text.bracketed op ts) = .error err ∧
        err.kind = .wrongBracketSequence ∧
        err.position = (Text.opened op (ts.take k) ++ [' ']).length + l.start + 1 := by
  have hlength : ts.length = es.length := h.length_eq
  refine ⟨?_, ?_, ?_⟩
  · intro count
    exact Parse.parse_bracketed h (hlength ▸ count)
  · intro k arity short
    refine ⟨_, Parse.parse_bracketed_short h arity (hlength ▸ short), rfl, ?_, rfl, ?_⟩
    · rw [hlength]
      rfl
    · change ((1 + op.symbol.length : Nat) : Int) - (1 : Nat) = _
      omega
  · intro k hk arity
    have hts : ts = ts.take k ++ ts[k] :: ts.drop (k + 1) := by
      rw [List.getElem_cons_drop, List.take_append_drop]
    have hhead : ParseTo (ts.take k) (es.take k) := List.forall₂_take k h
    have hparsed : parse ts[k] = .ok es[k] := h.get hk (hlength ▸ hk)
    have hcount : (es.take k).length = k := by
      rw [List.length_take]
      omega
    obtain ⟨l, ls, hl, _⟩ := exists_lexemes_of_parse hparsed
    have herr := Parse.parse_bracketed_long (ts.drop (k + 1)) hhead hparsed
      (arity.trans (congrArg _ hcount.symm)) hl
    rw [← hts] at herr
    refine ⟨_, l, ls, _, (congrArg _ hts).trans (Text.bracketed_append op _ _ _), hl, herr, rfl, ?_⟩
    rw [List.length_append]
    rfl

/-- Two operands with blanks around them are accepted, too few, or too many. -/
theorem two_operands_behind_three_symbols :
    let ts : List Text := [" x".toList, "(- y z) ".toList]
    let es : List Expr := [.var .x, .node .subtract [.var .y, .var .z]]
    ParseTo ts es ∧
      parse "(geom-mean  x (- y z) )".toList = .ok (.node .geometricMean es) ∧
      (∃ err, parse "(med3  x (- y z) )".toList = .error err ∧ err.kind = .wrongOperandsQty ∧
        err.payload = ⟨none, some "med3".toList, some 3, some 2⟩ ∧ err.position = 2 ∧
        err.length = 4) ∧
      ∃ err, parse "(negate  x (- y z) )".toList = .error err ∧
        err.kind = .wrongBracketSequence ∧ err.position = 12 := by
  intro ts es
  have hx : parse " x".toList = .ok (.var .x) := by
    have hwords : Text.words " x".toList = [['x']] := by decide +kernel
    rw [parse_eq_ok_iff, hwords]
    exact .var .x
  have hsub : parse "(- y z) ".toList = .ok (.node .subtract [.var .y, .var .z]) := by
    have hwords : Text.words "(- y z) ".toList = [['('], ['-'], ['y'], ['z'], [')']] := by
      decide +kernel
    rw [parse_eq_ok_iff, hwords]
    exact .node rfl (.cons (.var .y) (.cons (.var .z) .nil))
  have h : ParseTo ts es := .cons hx (.cons hsub .nil)
  refine ⟨h, (bracketed_operands_by_arity .geometricMean h).1 rfl,
    (bracketed_operands_by_arity .median h).2.1 3 rfl (by decide), ?_⟩
  obtain ⟨q, l, ls, err, _, hl, herr, hkind, hposition⟩ :=
    (bracketed_operands_by_arity .negate h).2.2 1 (by decide) rfl
  have hfirst : (Text.lexemes "(- y z) ".toList).head? = some ⟨['('], 0⟩ := by decide +kernel
  have hhead : (Text.lexemes "(- y z) ".toList).head? = some l := congrArg List.head? hl
  rw [hfirst] at hhead
  cases hhead
  exact ⟨err, herr, hkind, hposition⟩

end PrefixCalc
