import PrefixCalc.Proofs.Parse.Recognition
import PrefixCalc.Proofs.Parse.Safety

/-! # Where a parse is refused

A parse is refused at one lexeme of its text, and the lexemes before it decide why. They are
open operations with their complete operands, and perhaps an opening bracket or an operation
that takes no more of them; or they are a whole expression, after which another lexeme comes.
`Parse.Refused` lists these cases without the machine, and `Parse.parse_eq_error_iff` says that
they are just the ones in which the machine stops. -/

namespace PrefixCalc
set_option autoImplicit false

namespace Text

/-- After the first lexemes of the text comes this one, or the empty one at the end. -/
def Reads (t : Text) (ls : List Lexeme) (l : Lexeme) : Prop :=
  ∃ ms, t.lexemes = ls ++ ms ∧ ms.headD t.endLexeme = l

theorem Reads.cases {t : Text} {ls : List Lexeme} {l : Lexeme} (h : t.Reads ls l) :
    (∃ ms, t.lexemes = ls ++ l :: ms) ∨ (t.lexemes = ls ∧ l = t.endLexeme) := by
  obtain ⟨ms, hall, rfl⟩ := h
  cases ms with
  | nil => exact .inr ⟨by rw [hall, List.append_nil], rfl⟩
  | cons l ms => exact .inl ⟨ms, hall⟩

/-- Only the lexeme at the end of the text is empty. -/
theorem Reads.mem_lexemes {t : Text} {ls : List Lexeme} {l : Lexeme} (h : t.Reads ls l)
    (hl : l.text ≠ []) : l ∈ t.lexemes := by
  rcases h.cases with ⟨ms, hall⟩ | ⟨_, rfl⟩
  · rw [hall]
    exact List.mem_append_cons_self
  · exact absurd rfl hl

theorem reads_of_lexemes {t : Text} {ls ms : List Lexeme} {l : Lexeme}
    (h : t.lexemes = ls ++ l :: ms) : t.Reads ls l :=
  ⟨l :: ms, h, rfl⟩

end Text

theorem Remainder.start_cut (r : Remainder) : r.cut.1.start = r.pos := by
  unfold cut
  split
  · rfl
  · split <;> rfl

namespace Cursor
variable {t : Text} {c : Cursor} {ls ms : List Lexeme}

theorem Over.reads (h : c.Over t) (hall : ls ++ c.lexemes = t.lexemes) : t.Reads ls c.next.1 :=
  ⟨c.lexemes, hall.symm, h.next_fst.symm⟩

theorem Stands.next_fst (h : c.Stands t ms) : c.next.1 = ms.headD t.endLexeme := by
  rw [h.place.next_fst, h.lexemes]

/-- Past the blanks the cursor is where the next lexeme starts. -/
theorem pos_skipBlanks (h : c.pushed = none) : c.skipBlanks.pos = c.next.1.start := by
  have hn : c.next.1 = c.remainder.next.1 := by
    rw [next, h]
  rw [hn, Remainder.next, Remainder.start_cut]
  rfl

end Cursor

namespace ParseError

/-- What an error tells besides its kind and its place. -/
structure Payload where
  lexeme : Option Text
  operation : Option Text
  expected : Option Nat
  found : Option Nat
deriving DecidableEq

def payload (err : ParseError) : Payload :=
  match err.cause with
  | .emptyExpression => ⟨none, none, none, none⟩
  | .unknownLexeme _ w => ⟨some w, none, none, none⟩
  | .operationNotFound _ w => ⟨none, some w, none, none⟩
  | .wrongBracketSequence _ => ⟨none, none, none, none⟩
  | .wrongOperandsQty w expected found _ _ => ⟨none, some w, some expected, some found⟩
  | .wrongConst _ w => ⟨some w, none, none, none⟩
  | .wrongEnding _ => ⟨none, none, none, none⟩

end ParseError

namespace Parse
open State

/-- The lexemes before the one that is refused, this one, and the error. -/
inductive Refused : List Lexeme → Lexeme → ParseError.Cause → Prop where
  | operationNotFound {stack : List Frame} {ls : List Lexeme} {opening l : Lexeme}
      (outer : StackReadFrom stack ls) (bracket : opening.text = ['('])
      (symbol : Operator.ofSymbol? l.text = none) :
      Refused (ls ++ [opening]) l (.operationNotFound l.start l.text)
  | wrongConst {l : Lexeme} (start : Text.startsConst l.text = true)
      (number : Text.isNumber l.text = false) : Refused [] l (.wrongConst l.start l.text)
  | unknownLexeme {stack : List Frame} {ls : List Lexeme} {l : Lexeme}
      (outer : StackReadFrom stack ls)
      (operand : stack ≠ [] → Text.startsOperand l.text = true) (bracket : l.text ≠ ['('])
      (name : Variable.ofName? l.text = none) (start : Text.startsConst l.text = false) :
      Refused ls l (.unknownLexeme l.start l.text)
  | wrongOperandsQty {stack : List Frame} {f : Frame} {ls ms : List Lexeme} {l : Lexeme} {n : Nat}
      (outer : StackReadFrom stack ls) (inner : f.ReadFrom ms) (bracket : l.text = [')'])
      (arity : f.op.arity = .fixed n) (short : f.operands.length < n) :
      Refused (ls ++ ms) l
        (.wrongOperandsQty f.op.symbol n f.operands.length f.opening.stop f.operator.stop)
  | wrongBracketSequence {stack : List Frame} {f : Frame} {ls ms : List Lexeme} {l : Lexeme}
      (outer : StackReadFrom stack ls) (inner : f.ReadFrom ms)
      (operand : f.wantsMore = true → Text.startsOperand l.text = false)
      (bracket : l.text ≠ [')']) : Refused (ls ++ ms) l (.wrongBracketSequence l.start)
  | wrongEnding {e : Expr} {ls : List Lexeme} {l : Lexeme} (complete : Derives e (texts ls))
      (more : l.text ≠ []) : Refused ls l (.wrongEnding l.start)

/-! ## Every error of the machine -/

/-- What was seen of the lexeme ahead: an operand is read only from a lexeme that can start
one, and a list of operands with room for more ends only before another lexeme. -/
def State.Admits (s : State) : Prop :=
  match s.focus with
  | .read l => s.stack ≠ [] → Text.startsOperand l.text = true
  | .close f => f.wantsMore = true → Text.startsOperand s.cursor.next.1.text = false
  | _ => True

theorem State.admits_step {s s' : State} {es : List Event} (hs : s.step = .next s' es) :
    s'.Admits := by
  cases effect_of_step hs with
  | opened => trivial
  | var => trivial
  | const => trivial
  | operand _ starts => exact fun _ => starts
  | @pushedBack f stack c d more starts back =>
    rw [Cursor.pushBack?_next] at back
    cases back
    intro _
    change Text.startsOperand c.putBack.next.1.text = false
    rw [Cursor.next_putBack]
    exact starts
  | full more =>
    intro hm
    rw [more] at hm
    cases hm
  | closed => trivial
  | delivered => trivial

theorem State.Steps.admits {t : Text} {s : State} {es : List Event} (h : Steps (start t) es s) :
    s.Admits :=
  h.preserves (fun _ hs => admits_step hs) fun hne => absurd rfl hne

theorem isNumber_of_startsOperand {t : Text} (hc : Text.startsConst t = true)
    (ho : Text.startsOperand t = true) : Text.isNumber t = true := by
  simpa [Text.startsOperand, ne_opening_of_startsConst hc, ofName?_of_startsConst hc] using ho

theorem State.Follows.refused {t : Text} {s : State} {cause : ParseError.Cause} {es : List Event}
    (h : s.Follows t) (ha : s.Admits) (hs : s.step = .stop (.error cause) es) :
    ∃ ls l, t.Reads ls l ∧ Refused ls l cause := by
  obtain ⟨ls, ms, hstack, hf, hall⟩ := h.history
  cases effect_of_step hs with
  | @operationNotFound l stack c bracket symbol =>
    cases hf
    rw [h.lexemes_read (by rw [bracket]; exact List.cons_ne_nil _ _)] at hall
    refine ⟨ls ++ [l], c.next.1, h.over_cursor.reads ?_, .operationNotFound hstack bracket symbol⟩
    simpa using hall
  | @wrongConst l stack c start number =>
    cases hf
    cases hstack with
    | nil => exact ⟨[], l, h.place.reads hall, .wrongConst start number⟩
    | cons =>
      rw [isNumber_of_startsOperand start (ha (List.cons_ne_nil _ _))] at number
      cases number
  | @unknownLexeme l stack c bracket name start =>
    cases hf
    rw [List.append_nil] at hall
    exact ⟨ls, l, h.place.reads hall, .unknownLexeme hstack ha bracket name start⟩
  | @wrongOperandsQty f stack c n bracket arity count =>
    have hbound : f.operands.length ≤ n := by
      cases hf with
      | mk _ _ _ bound => exact bound n arity
    exact ⟨ls ++ ms, c.next.1, h.place.reads hall,
      .wrongOperandsQty hstack hf bracket arity (Nat.lt_of_le_of_ne hbound count)⟩
  | @wrongBracketSequence f stack c bracket =>
    exact ⟨ls ++ ms, c.next.1, h.place.reads hall, .wrongBracketSequence hstack hf ha bracket⟩

theorem refused_of_finish {t : Text} {e : Expr} {c : Cursor} {err : ParseError}
    (h : Follows t ⟨.built e, [], c⟩) (herr : finish t e c = .error err) :
    ∃ ls l, t.Reads ls l ∧ Refused ls l err.cause := by
  obtain ⟨ls, ms, hstack, he, hall⟩ := h.history
  cases hstack
  have hover : c.Over t := h.place
  have hslot : c.pushed = none := h.slot
  rcases finish_cases t e c with ⟨_, hok⟩ | ⟨hend, hfinish⟩
  · rw [hok] at herr
    cases herr
  · rw [hfinish] at herr
    cases herr
    have hmore : c.next.1.text ≠ [] := by
      intro hn
      rw [(Cursor.atEnd_skipBlanks_iff hslot).2 (hover.next_text_eq_nil_iff.1 hn)] at hend
      cases hend
    rw [Cursor.pos_skipBlanks hslot]
    exact ⟨ms, c.next.1, hover.reads hall, .wrongEnding he hmore⟩

theorem refused_of_parse {t : Text} {err : ParseError} (ht : t ≠ []) (h : parse t = .error err) :
    err.source = t ∧ ∃ ls l, t.Reads ls l ∧ Refused ls l err.cause := by
  obtain ⟨es, s, hs, ⟨e, c, rfl, _, hparse⟩ | ⟨cause, fs, hstop, hparse⟩⟩ := exists_end ht
  · rw [hparse] at h
    refine ⟨?_, refused_of_finish hs.follows h⟩
    rcases finish_cases t e c with ⟨_, hok⟩ | ⟨_, herr⟩
    · rw [hok] at h
      cases h
    · rw [herr] at h
      cases h
      rfl
  · rw [hparse] at h
    cases h
    exact ⟨rfl, hs.follows.refused hs.admits hstop⟩

theorem exists_refused {t : Text} {err : ParseError} (h : parse t = .error err)
    (hkind : err.kind ≠ .emptyExpression) : ∃ ls l, t.Reads ls l ∧ Refused ls l err.cause := by
  have ht : t ≠ [] := by
    rintro rfl
    rw [parse_nil] at h
    cases h
    exact hkind rfl
  exact (refused_of_parse ht h).2

/-! ## The machine comes to every refusal -/

theorem Frame.ReadFrom.startsOperand {f : Frame} {ms : List Lexeme} (hf : f.ReadFrom ms)
    (rest : List Lexeme) (l : Lexeme) :
    Text.startsOperand ((ms ++ rest).headD l).text = true := by
  cases hf with
  | mk opening =>
    change Text.startsOperand f.opening.text = true
    rw [opening]
    exact startsOperand_opening

/-- The machine comes to read an expression inside the operations from what is left. -/
def ReadsInside (t : Text) (stack : List Frame) (rest : List Lexeme) : Prop :=
  ∃ (es : List Event) (c : Cursor), Steps (start t) es ⟨.read c.next.1, stack, c.next.2⟩ ∧
    c.Stands t rest

/-- The machine comes to the operation with these operands, before what is left. -/
def CollectsInside (t : Text) (f : Frame) (stack : List Frame) (rest : List Lexeme) : Prop :=
  ∃ (es : List Event) (c : Cursor), Steps (start t) es ⟨.collect f, stack, c⟩ ∧ c.Stands t rest

/-- An operation is opened and takes its operands. -/
theorem ReadsInside.collects {t : Text} {f : Frame} {stack : List Frame} {ms rest : List Lexeme}
    (h : ReadsInside t stack (ms ++ rest)) (hf : f.ReadFrom ms) :
    CollectsInside t f stack rest := by
  obtain ⟨es, c, hread, hc⟩ := h
  cases hf with
  | @mk ns opening operator operands bound =>
    obtain ⟨hl, hd⟩ := hc.next
    obtain ⟨hop, hd'⟩ := hd.next
    have hsymbol : Operator.ofSymbol? c.next.2.next.1.text = some f.op := by
      rw [hop, operator]
      exact Operator.ofSymbol?_symbol _
    have hopen : Steps ⟨.read f.opening, stack, c.next.2⟩ [.analyzing f.opening]
        ⟨.collect ⟨f.opening, c.next.2.next.1, f.op, []⟩, stack, c.next.2.next.2⟩ :=
      (Effect.opened opening hsymbol).steps
    obtain ⟨evs, d, hcollect, hd⟩ := collects_of_derivesAll operands ns rfl t
      ⟨f.opening, c.next.2.next.1, f.op, []⟩ stack c.next.2.next.2 rest hd' (by
        intro n hn
        simpa using bound n hn)
    rw [hop] at hcollect hopen
    rw [hl] at hread
    exact ⟨_, d, hread.trans (hopen.trans hcollect), hd⟩

theorem StackReadFrom.readsInside {t : Text} {stack : List Frame} {ls rest : List Lexeme}
    (h : StackReadFrom stack ls) (hall : t.lexemes = ls ++ rest)
    (hl : stack ≠ [] → Text.startsOperand (rest.headD t.endLexeme).text = true) :
    ReadsInside t stack rest := by
  -- from the outermost operation inwards
  induction h generalizing rest with
  | nil =>
    have hc := Cursor.stands_ofText t
    rw [hall] at hc
    exact ⟨[], _, .refl _, hc⟩
  | @cons f stack ls ms outer more inner ih =>
    rw [List.append_assoc] at hall
    obtain ⟨es, c, hcollect, hc⟩ :=
      (ih hall fun _ => inner.startsOperand rest _).collects inner
    have hstarts : Text.startsOperand c.next.1.text = true := by
      rw [hc.next_fst]
      exact hl (List.cons_ne_nil _ _)
    exact ⟨_, c, hcollect.trans (Effect.operand more hstarts).steps, hc⟩

theorem StackReadFrom.collectsInside {t : Text} {f : Frame} {stack : List Frame}
    {ls ms rest : List Lexeme} (h : StackReadFrom stack ls) (hf : f.ReadFrom ms)
    (hall : t.lexemes = ls ++ ms ++ rest) : CollectsInside t f stack rest := by
  rw [List.append_assoc] at hall
  exact (h.readsInside hall fun _ => hf.startsOperand rest _).collects hf

theorem parse_of_stop {t : Text} {s : State} {cause : ParseError.Cause} {es fs : List Event}
    (ht : t ≠ []) (hs : Steps (start t) es s) (he : s.step = .stop (.error cause) fs) :
    parse t = .error ⟨t, cause⟩ := by
  apply parse_of_error ht
  rw [hs.run_eq, run_of_stop he]

theorem parse_of_refused {t : Text} {ls : List Lexeme} {l : Lexeme} {cause : ParseError.Cause}
    (ht : t ≠ []) (hr : t.Reads ls l) (h : Refused ls l cause) : parse t = .error ⟨t, cause⟩ := by
  obtain ⟨rest, hall, hrest⟩ := hr
  cases h with
  | @operationNotFound stack ls opening l outer bracket symbol =>
    rw [List.append_assoc] at hall
    obtain ⟨es, c, hread, hc⟩ := outer.readsInside hall (by
      intro _
      change Text.startsOperand opening.text = true
      rw [bracket]
      exact startsOperand_opening)
    obtain ⟨hl, hd⟩ := hc.next
    have hnext : c.next.2.next.1 = l := hd.next_fst.trans hrest
    rw [hl] at hread
    rw [← hnext] at symbol ⊢
    exact parse_of_stop ht hread (Effect.operationNotFound bracket symbol).step_eq
  | wrongConst start number =>
    obtain ⟨es, c, hread, hc⟩ := StackReadFrom.nil.readsInside hall fun hne => absurd rfl hne
    rw [hc.next_fst, hrest] at hread
    exact parse_of_stop ht hread (Effect.wrongConst start number).step_eq
  | unknownLexeme outer operand bracket name start =>
    obtain ⟨es, c, hread, hc⟩ := outer.readsInside hall (by rwa [hrest])
    rw [hc.next_fst, hrest] at hread
    exact parse_of_stop ht hread (Effect.unknownLexeme bracket name start).step_eq
  | @wrongOperandsQty stack f ls ms l n outer inner bracket arity short =>
    obtain ⟨es, c, hcollect, hc⟩ := outer.collectsInside inner hall
    have hl : c.next.1 = l := hc.next_fst.trans hrest
    obtain ⟨fs, d, hclose, hd⟩ := steps_close (f := f) (c := c) stack (by
      intro _
      rw [hl, bracket]
      exact startsOperand_closing)
    have hbracket : d.next.1.text = [')'] := by rw [hd, hl, bracket]
    exact parse_of_stop ht (hcollect.trans hclose)
      (Effect.wrongOperandsQty hbracket arity (Nat.ne_of_lt short)).step_eq
  | @wrongBracketSequence stack f ls ms l outer inner operand bracket =>
    obtain ⟨es, c, hcollect, hc⟩ := outer.collectsInside inner hall
    have hl : c.next.1 = l := hc.next_fst.trans hrest
    obtain ⟨fs, d, hclose, hd⟩ := steps_close (f := f) (c := c) stack (by rwa [hl])
    have hdl : d.next.1 = l := by rw [hd, hl]
    rw [← hdl] at bracket ⊢
    exact parse_of_stop ht (hcollect.trans hclose) (Effect.wrongBracketSequence bracket).step_eq
  | @wrongEnding e ls l complete more =>
    obtain ⟨es, d, hbuilt, hd⟩ := steps_of_derives complete hall
    have hl : d.next.1 = l := hd.next_fst.trans hrest
    have hrun : (start t).run.2 = .tree e d := by
      rw [hbuilt.run_eq, run_of_stop Effect.finished.step_eq]
    have hend : d.skipBlanks.atEnd ≠ true := by
      intro hend
      have hnil := (Cursor.atEnd_skipBlanks_iff hd.slot).1 hend
      rw [← hl] at more
      exact more (hd.place.next_text_eq_nil_iff.2 hnil)
    rw [parse_of_tree ht hrun, finish, if_neg hend, Cursor.pos_skipBlanks hd.slot, hl]

/-- A text is refused where its lexemes are, and for the reason that they give. -/
theorem parse_eq_error_iff {t : Text} (ht : t ≠ []) {cause : ParseError.Cause} :
    parse t = .error ⟨t, cause⟩ ↔ ∃ ls l, t.Reads ls l ∧ Refused ls l cause :=
  ⟨fun h => (refused_of_parse ht h).2, fun ⟨_, _, hr, h⟩ => parse_of_refused ht hr h⟩

end Parse
end PrefixCalc
