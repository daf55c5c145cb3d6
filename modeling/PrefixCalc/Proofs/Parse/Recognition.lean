import PrefixCalc.Proofs.Parse.History

/-! # Parsing recognizes the grammar

A machine that reads the first of some lexemes from which an expression is derived builds this
expression and stands after them, whatever follows and whatever operations are open. With the
invariant of `State.Follows` for the other direction, a text parses to an expression just when
the expression is derived from the words of the text. -/

namespace PrefixCalc
set_option autoImplicit false

namespace Cursor

/-- The cursor stands before the lexemes with nothing in its slot. -/
structure Stands (t : Text) (c : Cursor) (ls : List Lexeme) : Prop where
  place : c.Over t
  slot : c.pushed = none
  lexemes : c.lexemes = ls

theorem stands_ofText (t : Text) : (ofText t).Stands t t.lexemes := ⟨over_ofText t, rfl, rfl⟩

theorem Stands.next {t : Text} {c : Cursor} {l : Lexeme} {ls : List Lexeme}
    (h : c.Stands t (l :: ls)) : c.next.1 = l ∧ c.next.2.Stands t ls := by
  obtain ⟨hl, hls⟩ := h.place.next_of_lexemes_cons h.lexemes
  exact ⟨hl, h.place.next, c.pushed_next, hls⟩

end Cursor

namespace Parse
namespace State

theorem Effect.step_eq {s : State} {m : Move} (h : Effect s m) : s.step = m := by
  cases h with
  | opened bracket symbol => simp [step, readLexeme, openOperation, bracket, symbol]
  | operationNotFound bracket symbol => simp [step, readLexeme, openOperation, bracket, symbol]
  | var name =>
    have hl := Variable.name_of_ofName? name
    have hne := hl ▸ name_ne_bracket _
    simp [step, readLexeme, hne, name]
  | const start value =>
    simp [step, readLexeme, readConst, ne_opening_of_startsConst start,
      ofName?_of_startsConst start, start, isNumber_of_toBinary64? value, value]
  | wrongConst start number =>
    simp [step, readLexeme, readConst, ne_opening_of_startsConst start,
      ofName?_of_startsConst start, start, number]
  | unknownLexeme bracket name start => simp [step, readLexeme, bracket, name, start]
  | operand more starts => simp [step, collect, more, starts]
  | pushedBack more starts back => simp [step, collect, more, starts, back]
  | full more => simp [step, collect, more]
  | closed bracket count =>
    simp [step, close, bracket, count, Expr.operation?]
  | wrongOperandsQty bracket arity count =>
    simp [step, close, bracket, arity, count, Arity.accepts, Arity.count?]
  | wrongBracketSequence bracket => simp [step, close, bracket]
  | delivered => rfl
  | finished => rfl

theorem Effect.steps {s t : State} {es : List Event} (h : Effect s (.next t es)) :
    Steps s es t :=
  .single h.step_eq

end State

open State

/-- From the first of the lexemes on the machine builds the expression and uses up the
lexemes. -/
def Builds (e : Expr) (ls : List Lexeme) : Prop :=
  ∀ (t : Text) (stack : List Frame) (c : Cursor) (l : Lexeme) (ms rest : List Lexeme),
    ls = l :: ms → c.Stands t (ms ++ rest) →
    ∃ es d, Steps ⟨.read l, stack, c⟩ es ⟨.built e, stack, d⟩ ∧ d.Stands t rest

/-- An open operation takes the expressions as its next operands. -/
def Collects (es : List Expr) (ls : List Lexeme) : Prop :=
  ∀ (t : Text) (f : Frame) (stack : List Frame) (c : Cursor) (rest : List Lexeme),
    c.Stands t (ls ++ rest) →
    (∀ n, f.op.arity = .fixed n → f.operands.length + es.length ≤ n) →
    ∃ evs d, Steps ⟨.collect f, stack, c⟩ evs
      ⟨.collect { f with operands := f.operands ++ es }, stack, d⟩ ∧ d.Stands t rest

/-- An open operation takes the expressions as its last operands, and closes. -/
def Completes (es : List Expr) (ls : List Lexeme) : Prop :=
  ∀ (t : Text) (f : Frame) (stack : List Frame) (c : Cursor) (closing : Lexeme)
    (rest : List Lexeme), closing.text = [')'] → c.Stands t (ls ++ closing :: rest) →
    f.op.arity.accepts (f.operands.length + es.length) = true →
    ∃ evs d, Steps ⟨.collect f, stack, c⟩ evs
      ⟨.built (.node f.op (f.operands ++ es)), stack, d⟩ ∧ d.Stands t rest

theorem builds_var {l : Lexeme} {i : Variable} (hl : l.text = i.name) : Builds (.var i) [l] := by
  intro t stack c l' ms rest hls hc
  cases hls
  have hi : Variable.ofName? l.text = some i := by rw [hl]; exact Variable.ofName?_name i
  exact ⟨_, c, (Effect.var hi).steps, hc⟩

theorem builds_const {l : Lexeme} {v : Binary64} (start : Text.startsConst l.text = true)
    (value : Text.toBinary64? l.text = some v) : Builds (.const v) [l] := by
  intro t stack c l' ms rest hls hc
  cases hls
  exact ⟨_, c, (Effect.const start value).steps, hc⟩

theorem builds_node {l operator closing : Lexeme} {op : Operator} {es : List Expr}
    {ms : List Lexeme} (hl : l.text = ['(']) (hop : operator.text = op.symbol)
    (hclosing : closing.text = [')']) (count : op.arity.accepts es.length = true)
    (hes : Completes es ms) :
    Builds (.node op es) (l :: operator :: (ms ++ [closing])) := by
  intro t stack c l' ms' rest hls hc
  obtain ⟨rfl, rfl⟩ := List.cons.inj hls
  simp only [List.cons_append, List.append_assoc, List.nil_append] at hc
  obtain ⟨hnext, hd⟩ := hc.next
  have hsymbol : Operator.ofSymbol? c.next.1.text = some op := by
    rw [hnext, hop]
    exact Operator.ofSymbol?_symbol op
  have hopen : Steps ⟨.read l, stack, c⟩ [.analyzing l]
      ⟨.collect ⟨l, c.next.1, op, []⟩, stack, c.next.2⟩ := (Effect.opened hl hsymbol).steps
  obtain ⟨evs, d, hsteps, hd⟩ := hes t ⟨l, c.next.1, op, []⟩ stack c.next.2 closing rest
    hclosing hd (by simpa using count)
  exact ⟨_, d, hopen.trans hsteps, hd⟩

/-- A list of operands that cannot go on ends: its frame is full, or what comes next is pushed
back and read again. -/
theorem steps_close {f : Frame} {c : Cursor} (stack : List Frame)
    (h : f.wantsMore = true → Text.startsOperand c.next.1.text = false) :
    ∃ es d, Steps ⟨.collect f, stack, c⟩ es ⟨.close f, stack, d⟩ ∧ d.next = c.next := by
  cases hm : f.wantsMore with
  | false => exact ⟨_, c, (Effect.full hm).steps, rfl⟩
  | true =>
    have hback : Steps ⟨.collect f, stack, c⟩ [] ⟨.close f, stack, c.putBack⟩ :=
      (Effect.pushedBack hm (h hm) c.pushBack?_next).steps
    exact ⟨_, c.putBack, hback, c.next_putBack⟩

theorem completes_nil : Completes [] [] := by
  intro t f stack c closing rest hclosing hc count
  obtain ⟨hnext, hd⟩ := hc.next
  have hbracket : c.next.1.text = [')'] := by rw [hnext, hclosing]
  obtain ⟨es, d, hsteps, hdc⟩ := steps_close (f := f) (c := c) stack (by
    intro _
    rw [hbracket]
    exact startsOperand_closing)
  have hclose : Steps ⟨.close f, stack, d⟩ [.built f.op f.operands.length]
      ⟨.built (.node f.op f.operands), stack, c.next.2⟩ := by
    rw [← hdc] at hbracket ⊢
    exact (Effect.closed hbracket count).steps
  rw [List.append_nil]
  exact ⟨_, c.next.2, hsteps.trans hclose, hd⟩

theorem collects_nil : Collects [] [] := by
  intro t f stack c rest hc _
  rw [List.append_nil]
  exact ⟨[], c, .refl _, hc⟩

theorem collects_cons {e : Expr} {es : List Expr} {l : Lexeme} {ls ms : List Lexeme}
    (hl : Text.startsOperand l.text = true) (he : Builds e (l :: ls)) (hes : Collects es ms) :
    Collects (e :: es) (l :: ls ++ ms) := by
  intro t f stack c rest hc count
  rw [List.append_assoc] at hc
  obtain ⟨rfl, hd⟩ := hc.next
  -- the arity has room for more operands than there are, so that collecting cannot stop here
  have hm : f.wantsMore = true := by
    rw [Frame.wantsMore_iff]
    intro n hn
    have := count n hn
    rw [List.length_cons] at this
    omega
  have hread : Steps ⟨.collect f, stack, c⟩ [] ⟨.read c.next.1, f :: stack, c.next.2⟩ :=
    (Effect.operand hm hl).steps
  obtain ⟨evs, d, hbuild, hd⟩ := he t (f :: stack) c.next.2 _ ls (ms ++ rest) rfl hd
  have hdeliver : Steps ⟨.built e, f :: stack, d⟩ [] ⟨.collect (f.push e), stack, d⟩ :=
    Effect.delivered.steps
  obtain ⟨evs', d', hrest, hd'⟩ := hes t (f.push e) stack d rest hd (by
    intro n hn
    have := count n hn
    simp only [Frame.push, List.length_append, List.length_cons, List.length_nil] at this ⊢
    omega)
  simp only [Frame.push, List.append_assoc, List.singleton_append] at hrest
  exact ⟨_, d', hread.trans (hbuild.trans (hdeliver.trans hrest)), hd'⟩

theorem completes_of_collects {es : List Expr} {ls : List Lexeme} (h : Collects es ls) :
    Completes es ls := by
  intro t f stack c closing rest hclosing hc count
  obtain ⟨evs, d, hcollect, hd⟩ := h t f stack c (closing :: rest) hc fun _ hn =>
    Nat.le_of_eq (Arity.eq_of_accepts count hn)
  obtain ⟨evs', d', hclose, hd'⟩ := completes_nil t { f with operands := f.operands ++ es } stack d
    closing rest hclosing hd (by rwa [List.length_nil, Nat.add_zero, List.length_append])
  rw [List.append_nil] at hclose
  exact ⟨_, d', hcollect.trans hclose, hd'⟩

mutual

theorem builds_of_derives : ∀ {e : Expr} {ts : List Text}, Derives e ts →
    ∀ ls, texts ls = ts → Builds e ls
  | _, _, .var i, ls, hls => by
    obtain ⟨l, rfl, hl⟩ := List.map_eq_singleton_iff.1 hls
    exact builds_var hl
  | _, _, .const start _ value, ls, hls => by
    obtain ⟨l, rfl, rfl⟩ := List.map_eq_singleton_iff.1 hls
    exact builds_const start value
  | _, _, .node count operands, ls, hls => by
    obtain ⟨l, ls, rfl, hl, hls⟩ := List.map_eq_cons_iff.1 hls
    obtain ⟨operator, ls, rfl, hop, hls⟩ := List.map_eq_cons_iff.1 hls
    obtain ⟨ms, ns, rfl, hms, hns⟩ := List.map_eq_append_iff.1 hls
    obtain ⟨closing, rfl, hclosing⟩ := List.map_eq_singleton_iff.1 hns
    exact builds_node hl hop hclosing count
      (completes_of_collects (collects_of_derivesAll operands ms hms))

theorem collects_of_derivesAll : ∀ {es : List Expr} {ts : List Text}, DerivesAll es ts →
    ∀ ls, texts ls = ts → Collects es ls
  | _, _, .nil, ls, hls => by
    obtain rfl := List.map_eq_nil_iff.1 hls
    exact collects_nil
  | _, _, .cons head tail, ls, hls => by
    obtain ⟨ms, ns, rfl, hms, hns⟩ := List.map_eq_append_iff.1 hls
    obtain ⟨w, ws, hw, hstarts⟩ := head.exists_head
    have he := builds_of_derives head ms hms
    rw [hw] at hms
    obtain ⟨l, ms, rfl, rfl, _⟩ := List.map_eq_cons_iff.1 hms
    exact collects_cons hstarts he (collects_of_derivesAll tail ns hns)

end

/-- An expression that the text starts with is built, and what follows it is still ahead. -/
theorem steps_of_derives {t : Text} {e : Expr} {ls rest : List Lexeme}
    (h : Derives e (texts ls)) (hall : t.lexemes = ls ++ rest) :
    ∃ es d, Steps (start t) es ⟨.built e, [], d⟩ ∧ d.Stands t rest := by
  obtain ⟨w, ws, hw, _⟩ := h.exists_head
  obtain ⟨l, ms, rfl, _, _⟩ := List.map_eq_cons_iff.1 hw
  have hc := Cursor.stands_ofText t
  rw [hall] at hc
  obtain ⟨rfl, hd⟩ := hc.next
  exact builds_of_derives h _ rfl t [] (Cursor.ofText t).next.2 _ ms rest rfl hd

theorem parse_of_derives {t : Text} {e : Expr} (h : Derives e t.words) : parse t = .ok e := by
  have ht : t ≠ [] := by
    rintro rfl
    obtain ⟨w, ws, hw, _⟩ := h.exists_head
    rw [Text.words, Text.lexemes_nil] at hw
    cases hw
  obtain ⟨es, d, hsteps, hd⟩ := steps_of_derives h (List.append_nil _).symm
  have hrun : (start t).run.2 = .tree e d := by
    rw [hsteps.run_eq, run_of_stop Effect.finished.step_eq]
  rw [parse_of_tree ht hrun, finish, if_pos ((Cursor.atEnd_skipBlanks_iff hd.slot).2 hd.lexemes)]

theorem derives_of_parse {t : Text} {e : Expr} (h : parse t = .ok e) : Derives e t.words := by
  by_cases ht : t = []
  · subst ht
    rw [parse_nil] at h
    cases h
  obtain ⟨es, s, hs, ⟨e', c, rfl, _, hparse⟩ | ⟨cause, fs, _, hparse⟩⟩ := exists_end ht
  · have hf := hs.follows
    obtain ⟨ls, ms, hstack, he, hall⟩ := hf.history
    rw [hparse, finish] at h
    split at h
    · rename_i hend
      cases h
      cases hstack
      have hnil : c.lexemes = [] := (Cursor.atEnd_skipBlanks_iff hf.slot).1 hend
      change [] ++ ms ++ c.lexemes = _ at hall
      rw [hnil, List.append_nil, List.nil_append] at hall
      rwa [Text.words, ← hall]
    · cases h
  · rw [hparse] at h
    cases h

end Parse

theorem parse_eq_ok_iff {t : Text} {e : Expr} : parse t = .ok e ↔ Derives e t.words :=
  ⟨Parse.derives_of_parse, Parse.parse_of_derives⟩

/-- Parsing accepts exactly the grammar and gives the derived expression, of which there is
one at most for each list of words; every other text is refused. -/
theorem parse_accepts_grammar :
    (∀ (t : Text) (e : Expr), parse t = .ok e ↔ Derives e t.words) ∧
    (∀ (ts : List Text) (e e' : Expr), Derives e ts → Derives e' ts → e = e') ∧
    ∀ t : Text, (¬ ∃ e, Derives e t.words) → ∃ err, parse t = .error err := by
  refine ⟨fun t e => parse_eq_ok_iff, ?_, ?_⟩
  · intro ts e e' h h'
    exact (Derives.unique (r := []) h h' rfl).1
  · intro t h
    cases hp : parse t with
    | ok e => exact absurd ⟨e, parse_eq_ok_iff.1 hp⟩ h
    | error err => exact ⟨err, rfl⟩

end PrefixCalc
