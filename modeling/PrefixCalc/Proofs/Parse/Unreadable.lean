import PrefixCalc.Proofs.Lexeme.Spans
import PrefixCalc.Proofs.Number.Literal
import PrefixCalc.Proofs.Parse.FailFast

/-! # Lexemes that cannot be read

An error about a lexeme itself, a wrong constant or an unknown lexeme, is about the first lexeme of
the text; or it is about an operand that is a number with a plus sign or a point at its start, which
starts an operand but no constant. Every other lexeme in the place of an operand only ends the
operands, and then it is a closing bracket, or one is missing before it. -/

namespace PrefixCalc
set_option autoImplicit false

namespace Text

/-- The first lexeme of the text, or the empty one at its end if there are blanks only. -/
def firstLexeme (t : Text) : Lexeme := t.lexemes.headD t.endLexeme

theorem reads_firstLexeme (t : Text) : t.Reads [] t.firstLexeme := ⟨t.lexemes, rfl, rfl⟩

theorem Reads.eq_firstLexeme {t : Text} {l : Lexeme} (h : t.Reads [] l) : l = t.firstLexeme := by
  obtain ⟨ms, hall, rfl⟩ := h
  rw [firstLexeme, hall]
  rfl

theorem Reads.firstLexeme_lt {t : Text} {ls : List Lexeme} {l : Lexeme} (h : t.Reads ls l)
    (hne : ls ≠ []) : t.firstLexeme.start < l.start := by
  obtain ⟨a, as, rfl⟩ := List.exists_cons_of_ne_nil hne
  rcases h.cases with ⟨ms, hall⟩ | ⟨hall, rfl⟩
  · have hpairwise := t.tiles_lexemes.pairwise_start
    rw [hall] at hpairwise
    rw [firstLexeme, hall]
    exact (List.pairwise_cons.mp hpairwise).1 l List.mem_append_cons_self
  · rw [firstLexeme, hall]
    apply start_lt_of_mem
    rw [hall]
    exact List.mem_cons_self

theorem isBlanks_of_firstLexeme {t : Text} (h : t.firstLexeme.text = []) : t.IsBlanks := by
  cases hall : t.lexemes with
  | nil => exact Remainder.isBlanks_of_lexemes_nil hall
  | cons l ls =>
    rw [firstLexeme, hall] at h
    have hmem : l ∈ t.lexemes := by
      rw [hall]
      exact List.mem_cons_self
    exact absurd h (t.tiles_lexemes.nonempty l hmem)

theorem Reads.ne_nil {t : Text} {ls : List Lexeme} {l : Lexeme} (h : t.Reads ls l)
    (hne : ls ≠ []) : t ≠ [] := by
  rintro rfl
  obtain ⟨ms, hall, _⟩ := h
  rw [lexemes_nil] at hall
  exact hne (List.append_eq_nil_iff.mp hall.symm).1

/-! ## What numbers and constants start with -/

theorem isNumber_name (i : Variable) : isNumber i.name = false := by
  cases i <;> decide

theorem ofName?_of_isNumber {t : Text} (h : isNumber t = true) : Variable.ofName? t = none := by
  cases hi : Variable.ofName? t with
  | none => rfl
  | some i =>
    rw [← Variable.name_of_ofName? hi, isNumber_name] at h
    cases h

theorem ne_opening_of_isNumber {t : Text} (h : isNumber t = true) : t ≠ ['('] := by
  rintro rfl
  revert h
  decide

/-- A number that starts no constant starts with a plus sign or a point. -/
theorem head?_of_isNumber {t : Text} (h : isNumber t = true) :
    startsConst t = false ↔ t.head? = some '+' ∨ t.head? = some '.' := by
  obtain ⟨l, hl⟩ := Option.isSome_iff_exists.mp h
  obtain ⟨hvalid, rfl⟩ := Literal.valid_of_ofText? hl
  obtain ⟨c, hc, hstart⟩ := hvalid.exists_head
  rw [Bool.eq_false_iff, ne_eq, startsConst_iff, hc]
  constructor
  · intro hn
    rcases hstart with hdigit | hmem
    · exact absurd ⟨c, rfl, Or.inl hdigit⟩ hn
    · simp only [List.mem_cons, List.not_mem_nil, or_false] at hmem
      rcases hmem with rfl | rfl | rfl
      · exact Or.inl rfl
      · exact absurd ⟨'-', rfl, Or.inr rfl⟩ hn
      · exact Or.inr rfl
  · rintro (h | h) ⟨a, ha, hconst⟩
    all_goals
      cases h
      cases ha
      revert hconst
      decide

end Text

namespace Parse
open State

variable {t : Text} {f : Frame} {stack : List Frame} {c : Cursor}

/-- The machine collects the operands of an operation that takes another one. -/
structure Collecting (t : Text) (f : Frame) (stack : List Frame) (c : Cursor) : Prop where
  reached : ∃ es, Steps (start t) es ⟨.collect f, stack, c⟩
  more : f.wantsMore = true

theorem Collecting.exists_reads (h : Collecting t f stack c) :
    ∃ ls ms, StackReadFrom stack ls ∧ f.ReadFrom ms ∧ t.Reads (ls ++ ms) c.next.1 := by
  obtain ⟨es, hs⟩ := h.reached
  obtain ⟨ls, ms, hstack, hf, hall⟩ := hs.follows.history
  exact ⟨ls, ms, hstack, hf, hs.follows.over_cursor.reads hall⟩

theorem Frame.ReadFrom.append_ne_nil {ls ms : List Lexeme} (h : f.ReadFrom ms) :
    ls ++ ms ≠ [] := by
  cases h
  exact List.append_ne_nil_of_right_ne_nil _ (List.cons_ne_nil _ _)

theorem Collecting.firstLexeme_lt (h : Collecting t f stack c) :
    t.firstLexeme.start < c.next.1.start := by
  obtain ⟨ls, ms, _, hf, hr⟩ := h.exists_reads
  exact hr.firstLexeme_lt hf.append_ne_nil

/-- Between operations that are open and one that takes another operand the machine collects. -/
theorem exists_collecting {ls ms : List Lexeme} {l : Lexeme} (outer : StackReadFrom stack ls)
    (inner : f.ReadFrom ms) (more : f.wantsMore = true) (hr : t.Reads (ls ++ ms) l) :
    ∃ c, Collecting t f stack c ∧ c.next.1 = l := by
  obtain ⟨rest, hall, hrest⟩ := hr
  obtain ⟨es, c, hs, hc⟩ := outer.collectsInside inner hall
  exact ⟨c, ⟨⟨es, hs⟩, more⟩, hc.next_fst.trans hrest⟩

/-! ## Wrong constants -/

theorem parse_wrongConst (hstart : Text.startsConst t.firstLexeme.text = true)
    (hnumber : Text.isNumber t.firstLexeme.text = false) :
    parse t = .error ⟨t, .wrongConst t.firstLexeme.start t.firstLexeme.text⟩ := by
  have ht : t ≠ [] := by
    rintro rfl
    rw [Text.firstLexeme, Text.lexemes_nil] at hstart
    cases hstart
  exact parse_of_refused ht t.reads_firstLexeme (.wrongConst hstart hnumber)

theorem firstLexeme_of_wrongConst {err : ParseError} (h : parse t = .error err)
    (hkind : err.kind = .wrongConst) :
    Text.startsConst t.firstLexeme.text = true ∧ Text.isNumber t.firstLexeme.text = false ∧
      err.position = t.firstLexeme.start + 1 ∧
      err.payload = ⟨some t.firstLexeme.text, none, none, none⟩ := by
  obtain ⟨source, cause⟩ := err
  obtain ⟨ls, l, hr, hrefused⟩ := exists_refused h (by rw [hkind]; decide)
  cases hrefused with
  | wrongConst start number =>
    obtain rfl := hr.eq_firstLexeme
    exact ⟨start, number, rfl, rfl⟩
  | _ => cases hkind

/-! ## Unknown lexemes -/

/-- The lexeme is an operand that no expression is read from: a number that starts no constant. -/
def SignedOperand (t : Text) (l : Lexeme) : Prop :=
  (∃ f stack c, Collecting t f stack c ∧ c.next.1 = l) ∧ Text.isNumber l.text = true ∧
    (l.text.head? = some '+' ∨ l.text.head? = some '.')

theorem SignedOperand.mem_lexemes {l : Lexeme} (h : SignedOperand t l) : l ∈ t.lexemes := by
  obtain ⟨⟨f, stack, c, hc, rfl⟩, hnumber, _⟩ := h
  obtain ⟨ls, ms, _, _, hr⟩ := hc.exists_reads
  apply hr.mem_lexemes
  intro hnil
  rw [hnil] at hnumber
  cases hnumber

theorem parse_signedOperand {l : Lexeme} (h : SignedOperand t l) :
    parse t = .error ⟨t, .unknownLexeme l.start l.text⟩ := by
  obtain ⟨⟨f, stack, c, hc, rfl⟩, hnumber, hhead⟩ := h
  obtain ⟨ls, ms, outer, inner, hr⟩ := hc.exists_reads
  exact parse_of_refused (hr.ne_nil inner.append_ne_nil) hr
    (.unknownLexeme (.cons outer hc.more inner) (fun _ => startsOperand_of_isNumber hnumber)
      (Text.ne_opening_of_isNumber hnumber) (Text.ofName?_of_isNumber hnumber)
      ((Text.head?_of_isNumber hnumber).mpr hhead))

theorem place_of_unknownLexeme {err : ParseError} (h : parse t = .error err)
    (hkind : err.kind = .unknownLexeme) :
    ∃ l, err.position = l.start + 1 ∧ err.payload = ⟨some l.text, none, none, none⟩ ∧
      (l = t.firstLexeme ∨ SignedOperand t l) := by
  obtain ⟨source, cause⟩ := err
  obtain ⟨ls, l, hr, hrefused⟩ := exists_refused h (by rw [hkind]; decide)
  cases hrefused with
  | unknownLexeme outer operand bracket name start =>
    refine ⟨l, rfl, rfl, ?_⟩
    cases outer with
    | nil => exact Or.inl hr.eq_firstLexeme
    | cons outer more inner =>
      obtain ⟨c, hc⟩ := exists_collecting outer inner more hr
      have hnumber : Text.isNumber l.text = true := by
        simpa [Text.startsOperand, bracket, name] using operand (List.cons_ne_nil _ _)
      exact Or.inr ⟨⟨_, _, c, hc⟩, hnumber, (Text.head?_of_isNumber hnumber).mp start⟩
  | _ => cases hkind

/-! ## Ends of operands -/

/-- A lexeme that starts no operand ends the operands before it, and is read again as what should
be their closing bracket. -/
theorem Collecting.exists_close (h : Collecting t f stack c)
    (hl : Text.startsOperand c.next.1.text = false) :
    ∃ d, step ⟨.collect f, stack, c⟩ = .next ⟨.close f, stack, d⟩ [] ∧ d.next = c.next :=
  ⟨c.putBack, (Effect.pushedBack h.more hl c.pushBack?_next).step_eq, c.next_putBack⟩

theorem Collecting.parse_of_ends (h : Collecting t f stack c)
    (hl : Text.startsOperand c.next.1.text = false) (hbracket : c.next.1.text ≠ [')']) :
    parse t = .error ⟨t, .wrongBracketSequence c.next.1.start⟩ := by
  obtain ⟨ls, ms, outer, inner, hr⟩ := h.exists_reads
  exact parse_of_refused (hr.ne_nil inner.append_ne_nil) hr
    (.wrongBracketSequence outer inner (fun _ => hl) hbracket)

/-- No error of a lexeme itself is reported at a lexeme that ends operands. -/
theorem Collecting.kind_ne {err : ParseError} (h : Collecting t f stack c)
    (hl : Text.startsOperand c.next.1.text = false) (hparse : parse t = .error err)
    (hplace : err.position = c.next.1.start + 1) :
    err.kind ≠ .unknownLexeme ∧ err.kind ≠ .wrongConst := by
  have hfirst := h.firstLexeme_lt
  constructor
  · intro hkind
    obtain ⟨l, hpos, _, rfl | hsigned⟩ := place_of_unknownLexeme hparse hkind
    · omega
    · -- the number would be the lexeme that ends the operands
      obtain ⟨ls, ms, _, _, hr⟩ := h.exists_reads
      obtain ⟨rfl, _⟩ := hr.eq_of_start hsigned.mem_lexemes (by omega)
      have hnumber := hsigned.2.1
      rw [startsOperand_of_isNumber hnumber] at hl
      cases hl
  · intro hkind
    obtain ⟨_, _, hpos, _⟩ := firstLexeme_of_wrongConst hparse hkind
    omega

end Parse

/-- Where errors about a lexeme itself occur: the text is empty; the first lexeme starts like a
constant and is no number; an unknown lexeme is the first one, or an operand that is a number with
a plus sign or a point at its start. Any other lexeme that starts no operand ends the operands
before it. -/
theorem lexeme_errors_by_place (t : Text) :
    ((∃ err, parse t = .error err ∧ err.kind = .emptyExpression) ↔ t = []) ∧
    ((∃ err, parse t = .error err ∧ err.kind = .wrongConst) ↔
      (∃ c, t.firstLexeme.text.head? = some c ∧ (c.isDigit = true ∨ c = '-')) ∧
        Text.isNumber t.firstLexeme.text = false) ∧
    (∀ err, parse t = .error err → err.kind = .wrongConst →
      err.position = t.firstLexeme.start + 1 ∧
        err.payload = ⟨some t.firstLexeme.text, none, none, none⟩) ∧
    (∀ err, parse t = .error err → err.kind = .unknownLexeme →
      ∃ l, err.position = l.start + 1 ∧ err.payload = ⟨some l.text, none, none, none⟩ ∧
        (l = t.firstLexeme ∧ (l.text = [] → t.IsBlanks) ∨ Parse.SignedOperand t l)) ∧
    (∀ l, Parse.SignedOperand t l → parse t = .error ⟨t, .unknownLexeme l.start l.text⟩) ∧
    ∀ f stack c, Parse.Collecting t f stack c → c.next.1.text ≠ ['('] →
      Variable.ofName? c.next.1.text = none → Text.isNumber c.next.1.text = false →
      (∃ d, Parse.State.step ⟨.collect f, stack, c⟩ = .next ⟨.close f, stack, d⟩ [] ∧
        d.next = c.next) ∧
      (c.next.1.text ≠ [')'] →
        parse t = .error ⟨t, .wrongBracketSequence c.next.1.start⟩) ∧
      ∀ err, parse t = .error err → err.position = c.next.1.start + 1 →
        err.kind ≠ .unknownLexeme ∧ err.kind ≠ .wrongConst := by
  refine ⟨?_, ?_, ?_, ?_, ?_, ?_⟩
  · constructor
    · rintro ⟨⟨source, cause⟩, herr, hkind⟩
      by_contra ht
      obtain ⟨_, ls, l, _, hrefused⟩ := Parse.refused_of_parse ht herr
      cases hrefused <;> cases hkind
    · rintro rfl
      exact ⟨_, Parse.parse_nil, rfl⟩
  · rw [← Text.startsConst_iff]
    constructor
    · rintro ⟨err, herr, hkind⟩
      obtain ⟨hstart, hnumber, _⟩ := Parse.firstLexeme_of_wrongConst herr hkind
      exact ⟨hstart, hnumber⟩
    · rintro ⟨hstart, hnumber⟩
      exact ⟨_, Parse.parse_wrongConst hstart hnumber, rfl⟩
  · intro err herr hkind
    exact (Parse.firstLexeme_of_wrongConst herr hkind).2.2
  · intro err herr hkind
    obtain ⟨l, hpos, hpayload, hl⟩ := Parse.place_of_unknownLexeme herr hkind
    refine ⟨l, hpos, hpayload, hl.imp_left ?_⟩
    rintro rfl
    exact ⟨rfl, Text.isBlanks_of_firstLexeme⟩
  · intro l hl
    exact Parse.parse_signedOperand hl
  · intro f stack c hc hbracket hname hnumber
    have hl : Text.startsOperand c.next.1.text = false := by
      simp [Text.startsOperand, hbracket, hname, hnumber]
    exact ⟨hc.exists_close hl, hc.parse_of_ends hl, fun _ => hc.kind_ne hl⟩

end PrefixCalc
