import PrefixCalc.Proofs.Lexeme.Spans
import PrefixCalc.Proofs.Parse.Refusal

/-! # Texts that end too early

A text that is parsed and then cut between two of its lexemes is refused at its end. Where it
would be refused earlier, the whole text would be, too; and it cannot be complete, since no
expression ends before just one of the words. -/

namespace PrefixCalc
set_option autoImplicit false

namespace Text

/-- The place lies in no lexeme of the text; one lexeme is before it and another behind it. -/
structure IsProperCut (t : Text) (n : Nat) : Prop where
  boundary : ∀ l ∈ t.lexemes, l.stop ≤ n ∨ n ≤ l.start
  before : ∃ l ∈ t.lexemes, l.stop ≤ n
  behind : ∃ l ∈ t.lexemes, n ≤ l.start

theorem exists_split_of_pairwise {n : Nat} {ks : List Lexeme}
    (hs : ks.Pairwise fun a b => a.start < b.start) (hb : ∀ k ∈ ks, k.stop ≤ n ∨ n ≤ k.start) :
    ∃ ls ms, ks = ls ++ ms ∧ (∀ l ∈ ls, l.stop ≤ n) ∧ ∀ l ∈ ms, n ≤ l.start := by
  induction ks with
  | nil => exact ⟨[], [], rfl, List.forall_mem_nil _, List.forall_mem_nil _⟩
  | cons k ks ih =>
    obtain ⟨hk, hs⟩ := List.pairwise_cons.1 hs
    obtain ⟨hbound, hb⟩ := List.forall_mem_cons.1 hb
    rcases hbound with hstop | hstart
    · obtain ⟨ls, ms, rfl, hls, hms⟩ := ih hs hb
      exact ⟨k :: ls, ms, rfl, List.forall_mem_cons.2 ⟨hstop, hls⟩, hms⟩
    · refine ⟨[], k :: ks, rfl, List.forall_mem_nil _, List.forall_mem_cons.2 ⟨hstart, ?_⟩⟩
      intro l hl
      exact Nat.le_trans hstart (Nat.le_of_lt (hk l hl))

theorem stop_le_of_mem_lexemes_take {t : Text} {n : Nat} {l : Lexeme}
    (h : l ∈ lexemes (t.take n)) : l.stop ≤ n := by
  obtain ⟨p, q, htake, hstart, _⟩ := (Remainder.of_ofText (t.take n)).exists_piece h
  have hlen := congrArg List.length htake
  simp only [List.length_take, List.length_append] at hlen
  unfold Lexeme.stop
  omega

/-- Where the lexemes of the cut text are the first ones of the text, the others start behind
the cut. -/
theorem le_start_of_lexemes_take {t : Text} {n : Nat} {ms : List Lexeme} {l : Lexeme}
    (h : t.lexemes = lexemes (t.take n) ++ ms) (hl : l ∈ ms) : n ≤ l.start := by
  by_contra hlt
  have hmem : l ∈ t.lexemes := by
    rw [h]
    exact List.mem_append_right _ hl
  have hholds := t.tiles_lexemes.holds_start hmem
  obtain ⟨c, _, hc⟩ := t.tiles_lexemes.exists_getElem? hmem hholds
  have hblank := (t.tiles_lexemes.covered _ c hc).mpr ⟨l, hmem, hholds⟩
  -- the first character of the lexeme is left by the cut, in one of the lexemes before it
  have hc' : (t.take n)[l.start]? = some c := by
    rw [List.getElem?_take_of_lt (by omega), hc]
  obtain ⟨k, hk, hholds'⟩ := ((tiles_lexemes (t.take n)).covered _ c hc').mp hblank
  have hkmem : k ∈ t.lexemes := by
    rw [h]
    exact List.mem_append_left _ hk
  have heq := t.tiles_lexemes.eq_of_holds t.tiles_lexemes hkmem hmem hholds' hholds
  have hpairwise := t.tiles_lexemes.pairwise_start
  rw [h] at hpairwise
  have hstart := (List.pairwise_append.1 hpairwise).2.2 k hk l hl
  rw [heq] at hstart
  exact Nat.lt_irrefl _ hstart

/-- A proper cut is one that leaves some lexemes of the text, but not all, as they are. -/
theorem isProperCut_iff {t : Text} {n : Nat} :
    t.IsProperCut n ↔ lexemes (t.take n) ≠ [] ∧
      ∃ ms, ms ≠ [] ∧ t.lexemes = lexemes (t.take n) ++ ms := by
  have hlt : ∀ l ∈ t.lexemes, l.start < l.stop := fun l hl => (t.tiles_lexemes.holds_start hl).2
  constructor
  · rintro ⟨boundary, ⟨k, hk, hbefore⟩, ⟨l, hl, hbehind⟩⟩
    obtain ⟨ls, ms, hall, hls, hms⟩ :=
      exists_split_of_pairwise t.tiles_lexemes.pairwise_start boundary
    rw [lexemes_take_of_append hall (fun _ hm => hls _ (List.mem_of_getLast? hm))
      fun _ hm => hms _ (List.mem_of_mem_head? hm)]
    have := hlt k hk
    have := hlt l hl
    refine ⟨?_, ms, ?_, hall⟩
    · rintro rfl
      rw [hall] at hk
      have := hms k hk
      omega
    · rintro rfl
      rw [hall, List.append_nil] at hl
      have := hls l hl
      omega
  · rintro ⟨hne, ms, hms, hall⟩
    have hmem : ∀ l, l ∈ lexemes (t.take n) ∨ l ∈ ms ↔ l ∈ t.lexemes := by
      intro l
      rw [hall, List.mem_append]
    refine ⟨?_, ?_, ?_⟩
    · intro l hl
      exact ((hmem l).2 hl).imp stop_le_of_mem_lexemes_take (le_start_of_lexemes_take hall)
    · obtain ⟨l, hl⟩ := List.exists_mem_of_ne_nil _ hne
      exact ⟨l, (hmem l).1 (Or.inl hl), stop_le_of_mem_lexemes_take hl⟩
    · obtain ⟨l, hl⟩ := List.exists_mem_of_ne_nil _ hms
      exact ⟨l, (hmem l).1 (Or.inr hl), le_start_of_lexemes_take hall hl⟩

end Text

/-! ## No expression ends with an opening bracket -/

theorem Derives.getLast?_ne_opening {e : Expr} {ts : List Text} (h : Derives e ts) :
    ts.getLast? ≠ some ['('] := by
  intro hlast
  cases h with
  | var i => exact name_ne_bracket i (Option.some.inj hlast)
  | const start => exact ne_opening_of_startsConst start (Option.some.inj hlast)
  | node =>
    rw [← List.cons_append, ← List.cons_append, List.getLast?_concat] at hlast
    cases hlast

theorem DerivesAll.getLast?_ne_opening {es : List Expr} {ts : List Text} (h : DerivesAll es ts) :
    ts.getLast? ≠ some ['('] := by
  match h with
  | .nil =>
    intro hlast
    cases hlast
  | @DerivesAll.cons _ _ _ us head tail =>
    cases us with
    | nil =>
      rw [List.append_nil]
      exact head.getLast?_ne_opening
    | cons u us =>
      rw [List.getLast?_append_of_ne_nil _ (List.cons_ne_nil u us)]
      exact tail.getLast?_ne_opening

namespace Parse

theorem Frame.ReadFrom.getLast?_ne_opening {f : Frame} {ms : List Lexeme} (h : f.ReadFrom ms)
    (ts : List Text) : (ts ++ texts ms).getLast? ≠ some ['('] := by
  cases h with
  | @mk ns opening operator operands =>
    rw [texts_cons, texts_cons, operator, List.getLast?_append_of_ne_nil _ (List.cons_ne_nil _ _)]
    cases hns : texts ns with
    | nil => exact fun hlast => symbol_ne_bracket f.op (Option.some.inj hlast)
    | cons u us =>
      rw [hns] at operands
      have hlast := operands.getLast?_ne_opening
      simpa using hlast

/-! ## The refusal of a cut text -/

/-- Lexemes that a parsed text starts with are not refused before their end. -/
theorem Refused.eq_end {p t : Text} {e : Expr} {ls ms : List Lexeme} {l : Lexeme}
    {cause : ParseError.Cause} (h : Refused ls l cause) (hr : p.Reads ls l)
    (hparse : parse t = .ok e) (hall : t.lexemes = p.lexemes ++ ms) :
    ls = p.lexemes ∧ l = p.endLexeme := by
  rcases hr.cases with ⟨ns, hp⟩ | ⟨hp, hl⟩
  · have ht : t ≠ [] := by
      rintro rfl
      rw [parse_nil] at hparse
      cases hparse
    rw [hp, List.append_assoc] at hall
    rw [parse_of_refused ht (Text.reads_of_lexemes hall) h] at hparse
    cases hparse
  · exact ⟨hp.symm, hl⟩

/-- At the end of a text an operator or a closing bracket is missing. -/
theorem Refused.cases_of_end {ls : List Lexeme} {l : Lexeme} {cause : ParseError.Cause}
    (h : Refused ls l cause) (hls : ls ≠ []) (hl : l.text = []) :
    ((texts ls).getLast? = some ['('] ∧ cause = .operationNotFound l.start []) ∨
      ((texts ls).getLast? ≠ some ['('] ∧ cause = .wrongBracketSequence l.start) := by
  cases h with
  | operationNotFound outer bracket symbol =>
    left
    rw [texts_append, texts_cons, texts_nil, List.getLast?_concat, bracket, hl]
    exact ⟨rfl, rfl⟩
  | wrongConst => exact absurd rfl hls
  | unknownLexeme outer operand =>
    cases outer with
    | nil => exact absurd rfl hls
    | cons =>
      have hstarts := operand (List.cons_ne_nil _ _)
      rw [hl] at hstarts
      cases hstarts
  | wrongOperandsQty outer inner bracket =>
    rw [hl] at bracket
    cases bracket
  | wrongBracketSequence outer inner =>
    right
    rw [texts_append]
    exact ⟨inner.getLast?_ne_opening _, rfl⟩
  | wrongEnding complete more => exact absurd hl more

/-- No expression is derived from the first words of another one. -/
theorem not_parsed_of_append {p t : Text} {e : Expr} {ms : List Lexeme} (hparse : parse t = .ok e)
    (hall : t.lexemes = p.lexemes ++ ms) (hms : ms ≠ []) (e' : Expr) : parse p ≠ .ok e' := by
  intro hp
  have hwords : t.words ++ [] = p.words ++ texts ms := by
    rw [List.append_nil, Text.words, hall]
    exact List.map_append
  obtain ⟨_, hnil⟩ := (parse_eq_ok_iff.1 hparse).unique (parse_eq_ok_iff.1 hp) hwords
  exact hms (List.map_eq_nil_iff.1 hnil.symm)

end Parse

/-- A parsed text that is cut between its first and its last lexeme, and in none of them, is
refused at its end: an operator is missing behind an opening bracket, and a closing bracket
behind every other lexeme. -/
theorem truncated_text_refused_at_end {t : Text} {e : Expr} {n : Nat} (h : parse t = .ok e)
    (cut : t.IsProperCut n) :
    ∃ err, parse (t.take n) = .error err ∧ err.position = (t.take n).length + 1 ∧
      ((Text.words (t.take n)).getLast? = some ['('] →
        err.kind = .operationNotFound ∧ err.payload = ⟨none, some [], none, none⟩) ∧
      ((Text.words (t.take n)).getLast? ≠ some ['('] → err.kind = .wrongBracketSequence) := by
  obtain ⟨hne, ms, hms, hall⟩ := Text.isProperCut_iff.1 cut
  have hp : t.take n ≠ [] := by
    intro hnil
    rw [hnil, Text.lexemes_nil] at hne
    exact hne rfl
  cases hparse : parse (t.take n) with
  | ok e' => exact absurd hparse (Parse.not_parsed_of_append h hall hms e')
  | error err =>
    obtain ⟨source, cause⟩ := err
    obtain ⟨hsource, ls, l, hr, hrefused⟩ := Parse.refused_of_parse hp hparse
    obtain ⟨rfl, rfl⟩ := hrefused.eq_end hr h hall
    refine ⟨_, rfl, ?_⟩
    rcases hrefused.cases_of_end hne rfl with ⟨hlast, rfl⟩ | ⟨hlast, rfl⟩
    · exact ⟨rfl, fun _ => ⟨rfl, rfl⟩, fun hn => absurd hlast hn⟩
    · exact ⟨rfl, fun ho => absurd ho hlast, fun _ => rfl⟩

/-- A cut in the operands of the inner operation, with a blank before it. -/
theorem truncated_inner_operands_refused :
    let t : Text := "(+ (negate x ) y)".toList
    parse t = .ok (.node .add [.node .negate [.var .x], .var .y]) ∧ t.IsProperCut 13 ∧
      ∃ err, parse "(+ (negate x ".toList = .error err ∧ err.position = 14 ∧
        err.kind = .wrongBracketSequence := by
  intro t
  have hparse : parse t = .ok (.node .add [.node .negate [.var .x], .var .y]) := by
    have hwords : t.words = [['('], ['+'], ['('], "negate".toList, ['x'], [')'], ['y'], [')']] := by
      decide +kernel
    rw [parse_eq_ok_iff, hwords]
    exact .node rfl (.cons (.node rfl (.cons (.var .x) .nil)) (.cons (.var .y) .nil))
  have hcut : t.IsProperCut 13 := by
    constructor <;> decide +kernel
  obtain ⟨err, herr, hposition, _, hkind⟩ := truncated_text_refused_at_end hparse hcut
  exact ⟨hparse, hcut, err, herr, hposition, hkind (by decide +kernel)⟩

end PrefixCalc
