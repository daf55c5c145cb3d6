import PrefixCalc.Proofs.Lexeme.Spans
import PrefixCalc.Proofs.Parse.Completion

/-! # Texts that go on behind an expression

A text in which another lexeme begins behind a complete expression is refused at this lexeme,
and a wrong ending is reported nowhere else. A text has one such place at most: the words of an
expression do not go on to those of another. -/

namespace PrefixCalc
set_option autoImplicit false

namespace Text

/-- A lexeme begins at the place: no blank is there, and no word goes on from before it. -/
def BeginsLexeme (t : Text) (p : Nat) : Prop :=
  ∃ c, t[p]? = some c ∧ isBlank c = false ∧
    (isBracket c = true ∨
      ∀ i b, i + 1 = p → t[i]? = some b → isBlank b = true ∨ isBracket b = true)

theorem beginsLexeme_iff {t : Text} {p : Nat} :
    t.BeginsLexeme p ↔ ∃ l ∈ t.lexemes, l.start = p := by
  have htiles := t.tiles_lexemes
  constructor
  · rintro ⟨c, hc, hblank, hborder⟩
    obtain ⟨l, hl, hholds⟩ := (htiles.covered p c hc).mp hblank
    refine ⟨l, hl, ?_⟩
    rcases hborder with hbracket | hbefore
    · exact (htiles.single_of_border hl hholds hc (Or.inr hbracket)).1
    · -- a lexeme from further left would hold the character before, and end behind it
      by_contra hne
      obtain ⟨hlo, hhi⟩ := hholds
      obtain ⟨i, hi⟩ : ∃ i, i + 1 = p := ⟨p - 1, by omega⟩
      have hholds : l.Holds i := ⟨by omega, by omega⟩
      obtain ⟨b, _, hb⟩ := htiles.exists_getElem? hl hholds
      obtain ⟨_, hstop⟩ := htiles.single_of_border hl hholds hb (hbefore i b hi hb)
      omega
  · rintro ⟨l, hl, rfl⟩
    have hholds := htiles.holds_start hl
    obtain ⟨c, hmem, hc⟩ := htiles.exists_getElem? hl hholds
    refine ⟨c, hc, (htiles.covered _ c hc).mpr ⟨l, hl, hholds⟩, ?_⟩
    rcases htiles.shape l hl with ⟨b, hb, htext⟩ | hrun
    · rw [htext, List.mem_singleton] at hmem
      exact Or.inl (hmem ▸ hb)
    · exact Or.inr hrun.before

end Text

/-- The words of an expression do not go on to those of another. -/
theorem Derives.eq_nil_of_append {e e' : Expr} {ts us : List Text} (h : Derives e ts)
    (h' : Derives e' (ts ++ us)) : us = [] := by
  have hwords : (ts ++ us) ++ [] = ts ++ us := List.append_nil _
  exact (h'.unique h hwords).2.symm

namespace Parse
variable {t : Text} {p : Nat}

/-- A text is refused at the lexeme that begins behind an expression. -/
theorem parse_of_beginsLexeme {e : Expr} (hp : t.BeginsLexeme p)
    (h : parse (t.take p) = .ok e) : parse t = .error ⟨t, .wrongEnding p⟩ := by
  obtain ⟨l, hl, rfl⟩ := Text.beginsLexeme_iff.mp hp
  obtain ⟨ls, ms, hall⟩ := List.append_of_mem hl
  have hcomplete := parse_eq_ok_iff.mp h
  rw [Text.words, Text.lexemes_take_start hall] at hcomplete
  have ht : t ≠ [] := by
    rintro rfl
    rw [Text.lexemes_nil] at hl
    cases hl
  exact parse_of_refused ht (Text.reads_of_lexemes hall)
    (.wrongEnding hcomplete (t.tiles_lexemes.nonempty l hl))

/-- A wrong ending is reported at a lexeme that begins behind an expression. -/
theorem beginsLexeme_of_parse {err : ParseError} (h : parse t = .error err)
    (hkind : err.kind = .wrongEnding) :
    t.BeginsLexeme err.start ∧ ∃ e, parse (t.take err.start) = .ok e := by
  obtain ⟨source, cause⟩ := err
  obtain ⟨ls, l, hr, hrefused⟩ := exists_refused h (by rw [hkind]; decide)
  cases hrefused with
  | @wrongEnding e ls l complete more =>
    have hwords : Text.words (t.take l.start) = texts ls := words_take_of_reads hr
    rw [← hwords] at complete
    exact ⟨Text.beginsLexeme_iff.mpr ⟨l, hr.mem_lexemes more, rfl⟩, e,
      parse_eq_ok_iff.mpr complete⟩
  | _ => cases hkind

end Parse

/-- A text is refused with a wrong ending just where a lexeme begins behind an expression, and
the whole rest is marked. No text has two such places, and the words of no expression are a
proper part of those that another one starts with. -/
theorem wrong_ending_behind_expression (t : Text) :
    (∀ p, (∃ err, parse t = .error err ∧ err.kind = .wrongEnding ∧ err.position = p + 1) ↔
      t.BeginsLexeme p ∧ ∃ e, parse (t.take p) = .ok e) ∧
    (∀ p q e e', t.BeginsLexeme p → parse (t.take p) = .ok e →
      t.BeginsLexeme q → parse (t.take q) = .ok e' → p = q) ∧
    (∀ u e e', parse t = .ok e → parse u = .ok e' → t.words <+: u.words → t.words = u.words) ∧
    ∀ p e, t.BeginsLexeme p → parse (t.take p) = .ok e →
      ∃ err, parse t = .error err ∧ err.kind = .wrongEnding ∧ err.position = p + 1 ∧
        err.length = (t.drop p).length := by
  refine ⟨?_, ?_, ?_, ?_⟩
  · intro p
    constructor
    · rintro ⟨err, herr, hkind, hpos⟩
      obtain rfl : err.start = p := Nat.succ.inj hpos
      exact Parse.beginsLexeme_of_parse herr hkind
    · rintro ⟨hp, e, he⟩
      exact ⟨_, Parse.parse_of_beginsLexeme hp he, rfl, rfl⟩
  · intro p q e e' hp he hq he'
    have heq := (Parse.parse_of_beginsLexeme hp he).symm.trans
      (Parse.parse_of_beginsLexeme hq he')
    cases heq
    rfl
  · rintro u e e' he he' ⟨us, hus⟩
    have hnil : us = [] := by
      have hu := parse_eq_ok_iff.mp he'
      rw [← hus] at hu
      exact (parse_eq_ok_iff.mp he).eq_nil_of_append hu
    rw [← hus, hnil, List.append_nil]
  · intro p e hp he
    refine ⟨_, Parse.parse_of_beginsLexeme hp he, rfl, rfl, ?_⟩
    obtain ⟨c, hc, _⟩ := hp
    have hlt : p < t.length := (List.getElem?_eq_some_iff.mp hc).1
    rw [List.length_drop]
    change (t.length : Int) - p = _
    omega

end PrefixCalc
