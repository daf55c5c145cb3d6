import PrefixCalc.Parse.Log
import PrefixCalc.Proofs.Expr.Postfix
import PrefixCalc.Proofs.Lexeme.Spans
import PrefixCalc.Proofs.Parse.Safety
import PrefixCalc.Proofs.Text.Quoted

/-! # The notes of a parse

The notes of a parse that succeeds are those of a walk through the tree along the lexemes of
the text. `Expr.notes` is this walk. `Parse.Noted` relates an expression, the lexemes that write
it and the events noted of it; in every state of the machine the open operations and the focus
are in this relation with what was read and noted so far, which is the invariant
`State.Records`. -/

namespace PrefixCalc
set_option autoImplicit false

open Parse (Event)

namespace Expr

mutual

/-- What is noted of an expression that is written at the start of some lexemes, and the
lexemes behind it. An operation takes two lexemes before its operands, and one after them. -/
def notes : Expr → List Lexeme → List Event × List Lexeme
  | const _, ls => ((ls.take 1).map .analyzing, ls.drop 1)
  | var _, ls => ((ls.take 1).map .analyzing, ls.drop 1)
  | node op es, ls =>
    let inner := notesAll es (ls.drop 2)
    ((ls.take 1).map .analyzing ++ inner.1 ++ [.built op es.length], inner.2.drop 1)

def notesAll : List Expr → List Lexeme → List Event × List Lexeme
  | [], ls => ([], ls)
  | e :: es, ls =>
    let first := notes e ls
    let others := notesAll es first.2
    (first.1 ++ others.1, others.2)

end

def count? : Expr → Option (Operator × Nat)
  | node op es => some (op, es.length)
  | _ => none

/-- The operators and their numbers of operands, each behind those in its operands. -/
def counts (e : Expr) : List (Operator × Nat) := e.postorder.filterMap count?

end Expr

/-- The first lexeme of an expression. -/
def Lexeme.Starts (l : Lexeme) : Expr → Prop
  | .const v => Text.startsConst l.text = true ∧ Text.toBinary64? l.text = some v
  | .var i => l.text = i.name
  | .node _ _ => l.text = ['(']

namespace Parse

namespace Event

def analyzed? : Event → Option Lexeme
  | analyzing l => some l
  | built _ _ => none

def built? : Event → Option (Operator × Nat)
  | analyzing _ => none
  | built op n => some (op, n)

/-- An event with its lexeme between quotes as it stands in the text. -/
def plainText : Event → Text
  | analyzing l =>
    "Analyzing lexeme '".toList ++ l.text ++ "' at ".toList ++ Text.ofNat (l.start + 1)
  | built op n =>
    "Built operation ".toList ++ op.symbol ++ " with ".toList ++ Text.ofNat n
      ++ " operands".toList

end Event

def analyzed (es : List Event) : List Lexeme := es.filterMap Event.analyzed?

def built (es : List Event) : List (Operator × Nat) := es.filterMap Event.built?

theorem analyzed_append (es fs : List Event) :
    analyzed (es ++ fs) = analyzed es ++ analyzed fs := List.filterMap_append

theorem analyzed_append_built (es : List Event) (op : Operator) (n : Nat) :
    analyzed (es ++ [.built op n]) = analyzed es := by
  rw [analyzed_append]
  exact List.append_nil _

theorem built_append (es fs : List Event) : built (es ++ fs) = built es ++ built fs :=
  List.filterMap_append

mutual

/-- The lexemes write the expression, and the events are noted when it is read. -/
inductive Noted : Expr → List Lexeme → List Event → Prop where
  | const {v : Binary64} {l : Lexeme} (starts : l.Starts (.const v)) :
      Noted (.const v) [l] [.analyzing l]
  | var {i : Variable} {l : Lexeme} (starts : l.Starts (.var i)) :
      Noted (.var i) [l] [.analyzing l]
  | node {op : Operator} {es : List Expr} {opening operator closing : Lexeme}
      {ls : List Lexeme} {evs : List Event} (starts : opening.Starts (.node op es))
      (operands : NotedAll es ls evs) :
      Noted (.node op es) (opening :: operator :: (ls ++ [closing]))
        (.analyzing opening :: (evs ++ [.built op es.length]))

inductive NotedAll : List Expr → List Lexeme → List Event → Prop where
  | nil : NotedAll [] [] []
  | cons {e : Expr} {es : List Expr} {ls ms : List Lexeme} {evs fvs : List Event}
      (head : Noted e ls evs) (tail : NotedAll es ms fvs) :
      NotedAll (e :: es) (ls ++ ms) (evs ++ fvs)

end

theorem NotedAll.append {es es' : List Expr} {ls ls' : List Lexeme} {evs evs' : List Event}
    (h : NotedAll es ls evs) (h' : NotedAll es' ls' evs') :
    NotedAll (es ++ es') (ls ++ ls') (evs ++ evs') := by
  match h with
  | .nil => exact h'
  | .cons head tail =>
    rw [List.append_assoc, List.append_assoc]
    exact .cons head (tail.append h')

theorem NotedAll.singleton {e : Expr} {ls : List Lexeme} {evs : List Event}
    (h : Noted e ls evs) : NotedAll [e] ls evs := by
  have := NotedAll.cons h .nil
  rwa [List.append_nil, List.append_nil] at this

/-! ## The walk -/

mutual

/-- The walk takes the lexemes of the expression and no others. -/
theorem Noted.notes_append : ∀ {e : Expr} {ls : List Lexeme} {evs : List Event},
    Noted e ls evs → ∀ rest, e.notes (ls ++ rest) = (evs, rest)
  | _, _, _, .const _, rest => by
    rw [Expr.notes]
    rfl
  | _, _, _, .var _, rest => by
    rw [Expr.notes]
    rfl
  | _, _, _, .node _ operands, rest => by
    have hinner := operands.notesAll_append
    simp only [Expr.notes, List.cons_append, List.append_assoc, List.drop_succ_cons,
      List.drop_zero, hinner]
    rfl

theorem NotedAll.notesAll_append : ∀ {es : List Expr} {ls : List Lexeme} {evs : List Event},
    NotedAll es ls evs → ∀ rest, Expr.notesAll es (ls ++ rest) = (evs, rest)
  | _, _, _, .nil, rest => by
    rw [Expr.notesAll]
    rfl
  | _, _, _, .cons head tail, rest => by
    simp only [Expr.notesAll, List.append_assoc, head.notes_append, tail.notesAll_append]

end

mutual

/-- One lexeme is analyzed for each subtree, an operation before its operands. -/
theorem Noted.starts_preorder : ∀ {e : Expr} {ls : List Lexeme} {evs : List Event},
    Noted e ls evs → List.Forall₂ Lexeme.Starts (analyzed evs) e.preorder
  | _, _, _, .const starts => by
    rw [Expr.preorder]
    exact .cons starts .nil
  | _, _, _, .var starts => by
    rw [Expr.preorder]
    exact .cons starts .nil
  | _, _, _, .node starts operands => by
    rw [Expr.preorder]
    refine .cons starts ?_
    change List.Forall₂ _ (analyzed (_ ++ _)) _
    rw [analyzed_append_built]
    exact operands.starts_preorderList

theorem NotedAll.starts_preorderList : ∀ {es : List Expr} {ls : List Lexeme}
    {evs : List Event}, NotedAll es ls evs →
    List.Forall₂ Lexeme.Starts (analyzed evs) (Expr.preorderList es)
  | _, _, _, .nil => by
    rw [Expr.preorderList]
    exact .nil
  | _, _, _, .cons head tail => by
    rw [Expr.preorderList, analyzed_append]
    exact List.rel_append head.starts_preorder tail.starts_preorderList

end

mutual

/-- The analyzed lexemes keep the order in which they were read. -/
theorem Noted.analyzed_sublist : ∀ {e : Expr} {ls : List Lexeme} {evs : List Event},
    Noted e ls evs → (analyzed evs).Sublist ls
  | _, _, _, .const _ => .refl _
  | _, _, _, .var _ => .refl _
  | _, _, _, .node _ operands => by
    refine .cons_cons _ (.cons _ ?_)
    change (analyzed (_ ++ _)).Sublist _
    rw [analyzed_append_built]
    exact operands.analyzed_sublist.trans (List.sublist_append_left _ _)

theorem NotedAll.analyzed_sublist : ∀ {es : List Expr} {ls : List Lexeme} {evs : List Event},
    NotedAll es ls evs → (analyzed evs).Sublist ls
  | _, _, _, .nil => .refl _
  | _, _, _, .cons head tail => by
    rw [analyzed_append]
    exact head.analyzed_sublist.append tail.analyzed_sublist

end

mutual

/-- One operation is built for each operator of the tree, behind those in its operands. -/
theorem Noted.built_eq : ∀ {e : Expr} {ls : List Lexeme} {evs : List Event},
    Noted e ls evs → built evs = e.counts
  | _, _, _, .const _ => by
    rw [Expr.counts, Expr.postorder]
    rfl
  | _, _, _, .var _ => by
    rw [Expr.counts, Expr.postorder]
    rfl
  | _, _, _, .node _ operands => by
    change built (_ ++ _) = _
    rw [built_append, operands.built_eq, Expr.counts, Expr.postorder, List.filterMap_append]
    rfl

theorem NotedAll.built_eq : ∀ {es : List Expr} {ls : List Lexeme} {evs : List Event},
    NotedAll es ls evs → built evs = (Expr.postorderList es).filterMap Expr.count?
  | _, _, _, .nil => by
    rw [Expr.postorderList]
    rfl
  | _, _, _, .cons head tail => by
    rw [built_append, head.built_eq, tail.built_eq, Expr.postorderList, List.filterMap_append]
    rfl

end

/-! ## The machine -/

/-- What was read and noted of an open operation. -/
inductive Frame.Noted : Frame → List Lexeme → List Event → Prop where
  | mk {f : Frame} {ls : List Lexeme} {evs : List Event} (opening : f.opening.text = ['('])
      (operands : NotedAll f.operands ls evs) :
      Noted f (f.opening :: f.operator :: ls) (.analyzing f.opening :: evs)

inductive StackNoted : List Frame → List Lexeme → List Event → Prop where
  | nil : StackNoted [] [] []
  | cons {f : Frame} {stack : List Frame} {ls ms : List Lexeme} {evs fvs : List Event}
      (outer : StackNoted stack ls evs) (inner : f.Noted ms fvs) :
      StackNoted (f :: stack) (ls ++ ms) (evs ++ fvs)

theorem Frame.Noted.push {f : Frame} {e : Expr} {ls ms : List Lexeme} {evs fvs : List Event}
    (hf : f.Noted ls evs) (he : Parse.Noted e ms fvs) :
    (f.push e).Noted (ls ++ ms) (evs ++ fvs) := by
  cases hf with
  | mk opening operands => exact .mk (f := f.push e) opening (operands.append (.singleton he))

namespace State

def focusNoted : Focus → List Lexeme → List Event → Prop
  | .read _, ls, evs => ls = [] ∧ evs = []
  | .collect f, ls, evs => f.Noted ls evs
  | .close f, ls, evs => f.Noted ls evs
  | .built e, ls, evs => Noted e ls evs

/-- The events are those of the open operations and of the focus, whose lexemes are all lexemes
of the text before the cursor. -/
def Records (t : Text) (s : State) (evs : List Event) : Prop :=
  ∃ ls ms as bs, StackNoted s.stack ls as ∧ focusNoted s.focus ms bs ∧ evs = as ++ bs ∧
    ls ++ ms ++ s.before.lexemes = t.lexemes

variable {t : Text} {s s' : State} {es evs : List Event}

theorem records_start (t : Text) : (start t).Records t [] :=
  ⟨[], [], [], [], .nil, ⟨rfl, rfl⟩, rfl, (Cursor.over_ofText t).lexemes_putBack⟩

theorem Records.atom {l : Lexeme} {stack : List Frame} {c : Cursor} {e : Expr}
    (h : Records t ⟨.read l, stack, c⟩ evs) (hf : Follows t ⟨.read l, stack, c⟩)
    (hl : l.text ≠ []) (he : Noted e [l] [.analyzing l]) :
    Records t ⟨.built e, stack, c⟩ (evs ++ [.analyzing l]) := by
  obtain ⟨ls, ms, as, bs, hstack, ⟨rfl, rfl⟩, rfl, hall⟩ := h
  refine ⟨ls, [l], as, [.analyzing l], hstack, he, ?_, ?_⟩
  · rw [List.append_nil]
  · rw [hf.lexemes_read hl] at hall
    simpa [before] using hall

/-- Each move notes what its state is to have noted; pushing back notes nothing. -/
theorem Records.step (h : s.Records t evs) (hf : s.Follows t) (hs : s.step = .next s' es) :
    s'.Records t (evs ++ es) := by
  cases effect_of_step hs with
  | @opened l stack c op bracket symbol =>
    obtain ⟨ls, ms, as, bs, hstack, ⟨rfl, rfl⟩, rfl, hall⟩ := h
    have hl : l.text ≠ [] := by rw [bracket]; exact List.cons_ne_nil _ _
    have hn : c.next.1.text ≠ [] := by
      rw [← Operator.symbol_of_ofSymbol? symbol]
      exact symbol_ne_nil op
    refine ⟨ls, [l, c.next.1], as, [.analyzing l], hstack, .mk bracket .nil, ?_, ?_⟩
    · rw [List.append_nil]
    · rw [hf.lexemes_read hl, hf.lexemes_cursor hn] at hall
      simpa [before] using hall
  | @var l stack c i name =>
    have hi := Variable.name_of_ofName? name
    exact h.atom hf (hi ▸ name_ne_nil i) (.var hi.symm)
  | const start value => exact h.atom hf (startsConst_ne_nil start) (.const ⟨start, value⟩)
  | @operand f stack c more starts =>
    obtain ⟨ls, ms, as, bs, hstack, hfocus, rfl, hall⟩ := h
    refine ⟨ls ++ ms, [], as ++ bs, [], .cons hstack hfocus, ⟨rfl, rfl⟩, rfl, ?_⟩
    rw [List.append_nil, ← hall]
    exact congrArg (ls ++ ms ++ ·) hf.over_cursor.lexemes_putBack
  | @pushedBack f stack c d more starts back =>
    obtain ⟨ls, ms, as, bs, hstack, hfocus, rfl, hall⟩ := h
    rw [Cursor.pushBack?_next] at back
    cases back
    refine ⟨ls, ms, as, bs, hstack, hfocus, List.append_nil _, ?_⟩
    rw [← hall]
    exact congrArg (ls ++ ms ++ ·) hf.over_cursor.lexemes_putBack
  | full more =>
    rw [List.append_nil]
    exact h
  | @closed f stack c bracket count =>
    obtain ⟨ls, ms, as, bs, hstack, hfocus, rfl, hall⟩ := h
    cases hfocus with
    | @mk ms evs opening operands =>
      refine ⟨ls, f.opening :: f.operator :: (ms ++ [c.next.1]), as, _, hstack,
        .node opening operands, ?_, ?_⟩
      · rw [List.append_assoc, List.cons_append]
      · have hl : c.next.1.text ≠ [] := by rw [bracket]; exact List.cons_ne_nil _ _
        change _ ++ c.lexemes = _ at hall
        rw [hf.lexemes_cursor hl] at hall
        simpa [before] using hall
  | @delivered e f stack c =>
    obtain ⟨ls, ms, as, bs, hstack, he, rfl, hall⟩ := h
    cases hstack with
    | @cons _ _ ls ns as cs outer inner =>
      refine ⟨ls, ns ++ ms, as, cs ++ bs, outer, inner.push he, ?_, ?_⟩
      · rw [List.append_nil, List.append_assoc]
      · simpa [before] using hall

theorem Steps.records (h : Steps s es s') (hf : s.Follows t) (hs : s.Records t evs) :
    s'.Records t (evs ++ es) := by
  induction h generalizing evs with
  | refl =>
    rw [List.append_nil]
    exact hs
  | cons head _ ih =>
    rw [← List.append_assoc]
    exact ih (hf.step head) (hs.step hf head)

end State

open State

/-- The events of a whole run are those of the tree, which all lexemes of the text write. -/
theorem noted_log {t : Text} {e : Expr} (h : parse t = .ok e) : Noted e t.lexemes (log t) := by
  by_cases ht : t = []
  · subst ht
    rw [parse_nil] at h
    cases h
  obtain ⟨es, s, hs, ⟨e', c, rfl, _, hparse⟩ | ⟨cause, fs, _, hparse⟩⟩ := exists_end ht
  · rcases finish_cases t e' c with ⟨hend, hok⟩ | ⟨_, herr⟩
    · rw [hparse, hok] at h
      cases h
      obtain ⟨ls, ms, as, bs, hstack, he, hes, hall⟩ := hs.records (follows_start t)
        (records_start t)
      cases hstack
      have hnil : c.lexemes = [] := (Cursor.atEnd_skipBlanks_iff hs.follows.slot).mp hend
      have hlog : log t = es := by
        rw [log, if_neg ht, hs.run_eq, run_of_stop Effect.finished.step_eq]
        exact List.append_nil es
      change [] ++ ms ++ c.lexemes = _ at hall
      rw [hnil, List.append_nil, List.nil_append] at hall
      rw [hlog, ← hall, show es = bs from hes]
      exact he
    · rw [hparse, herr] at h
      cases h
  · rw [hparse] at h
    cases h

/-! ## Messages -/

theorem isPlain_of_mem_toText {l : Literal} (h : l.Valid) :
    ∀ c ∈ l.toText, Text.IsPlain c := by
  intro c hc
  rcases h.mem_toText hc with hc | hc
  · exact .of_isDigit hc
  · simp only [List.mem_cons, List.not_mem_nil, or_false] at hc
    rcases hc with rfl | rfl | rfl | rfl | rfl
    all_goals exact ⟨by decide, by decide, by decide, by decide⟩

theorem isPlain_of_starts {l : Lexeme} {e : Expr} (h : l.Starts e) :
    ∀ c ∈ l.text, Text.IsPlain c := by
  cases e with
  | const v =>
    obtain ⟨literal, hliteral, _⟩ := Option.map_eq_some_iff.mp h.2
    obtain ⟨hvalid, htext⟩ := Literal.valid_of_ofText? hliteral
    intro c hc
    rw [← htext] at hc
    exact isPlain_of_mem_toText hvalid c hc
  | var i =>
    rw [show l.text = i.name from h]
    cases i <;> exact List.forall_mem_singleton.mpr ⟨by decide, by decide, by decide, by decide⟩
  | node op es =>
    rw [show l.text = ['('] from h]
    exact List.forall_mem_singleton.mpr ⟨by decide, by decide, by decide, by decide⟩

theorem quoted_between {w : Text} (h : ∀ c ∈ w, Text.IsPlain c) (n : Text) :
    "Analyzing lexeme ".toList ++ w.quoted ++ " at ".toList ++ n =
      "Analyzing lexeme '".toList ++ w ++ "' at ".toList ++ n := by
  have hopen : "Analyzing lexeme '".toList = "Analyzing lexeme ".toList ++ ['\''] := by decide
  have hclose : "' at ".toList = '\'' :: " at ".toList := by decide
  rw [Text.IsPlain.quoted_eq h, hopen, hclose]
  simp only [List.append_assoc, List.cons_append, List.nil_append]

theorem toText_eq_plainText {es : List Event} {trees : List Expr}
    (h : List.Forall₂ Lexeme.Starts (analyzed es) trees) :
    es.map Event.toText = es.map Event.plainText := by
  apply List.map_congr_left
  intro ev hev
  cases ev with
  | built op n => rfl
  | analyzing l =>
    have hl : l ∈ analyzed es := List.mem_filterMap.mpr ⟨_, hev, rfl⟩
    obtain ⟨i, rfl⟩ := List.mem_iff_get.mp hl
    have hstarts := h.get i.isLt (h.length_eq ▸ i.isLt)
    exact quoted_between (isPlain_of_starts hstarts) _

end Parse

/-- The notes of a parse are those of the walk through its tree along the lexemes of the text,
which the walk uses up; their lexemes are quoted as they stand. Each subtree is analyzed once,
an operation before its operands, at its own first lexeme, and these stand one behind the other
in the text. Each operation is built once, behind those in its operands. -/
theorem log_follows_tree {t : Text} {e : Expr} (h : parse t = .ok e) :
    e.notes t.lexemes = (Parse.log t, []) ∧
    (Parse.log t).map Event.toText = (Parse.log t).map Event.plainText ∧
    List.Forall₂ Lexeme.Starts (Parse.analyzed (Parse.log t)) e.preorder ∧
    (Parse.analyzed (Parse.log t)).Pairwise (fun l m => l.start < m.start) ∧
    Parse.built (Parse.log t) = e.counts := by
  have hnoted := Parse.noted_log h
  have hwalk := hnoted.notes_append []
  rw [List.append_nil] at hwalk
  have hstarts := hnoted.starts_preorder
  have hordered := t.tiles_lexemes.pairwise_start.sublist hnoted.analyzed_sublist
  exact ⟨hwalk, Parse.toText_eq_plainText hstarts, hstarts, hordered, hnoted.built_eq⟩

/-- The variadic operation reads its closing bracket a second time, and notes it never. -/
theorem log_of_variadic_operation :
    let t : Text := "(arith-mean (negate y) x)".toList
    parse t = .ok (.node .arithmeticMean [.node .negate [.var .y], .var .x]) ∧
    (Parse.log t).map Event.toText =
      ["Analyzing lexeme '(' at 1".toList, "Analyzing lexeme '(' at 13".toList,
        "Analyzing lexeme 'y' at 21".toList, "Built operation negate with 1 operands".toList,
        "Analyzing lexeme 'x' at 24".toList,
        "Built operation arith-mean with 2 operands".toList] := by
  intro t
  have h : parse t = .ok (.node .arithmeticMean [.node .negate [.var .y], .var .x]) := by
    have hwords : t.words =
        [['('], "arith-mean".toList, ['('], "negate".toList, ['y'], [')'], ['x'], [')']] := by
      decide +kernel
    have hnegate : Derives (.node .negate [.var .y]) _ := .node rfl (.cons (.var .y) .nil)
    rw [parse_eq_ok_iff, hwords]
    exact .node rfl (.cons hnegate (.cons (.var .x) .nil))
  have hlexemes : t.lexemes =
      [⟨['('], 0⟩, ⟨"arith-mean".toList, 1⟩, ⟨['('], 12⟩, ⟨"negate".toList, 13⟩, ⟨['y'], 20⟩,
        ⟨[')'], 21⟩, ⟨['x'], 23⟩, ⟨[')'], 24⟩] := by
    decide +kernel
  obtain ⟨hwalk, htext, _⟩ := log_follows_tree h
  rw [hlexemes] at hwalk
  simp only [Expr.notes, Expr.notesAll, List.drop_succ_cons, List.drop_zero] at hwalk
  refine ⟨h, ?_⟩
  rw [htext, ← (Prod.mk.inj hwalk).1]
  decide +kernel

end PrefixCalc
