import PrefixCalc.Proofs.Items
import PrefixCalc.Proofs.Lexeme.Spans
import PrefixCalc.Proofs.Parse.Completion

/-! # Operations with too few operands

A report of too few operands is about an operation of a fixed arity, and tells how many complete
operands stand between its symbol and its closing bracket. Every operation that was closed before
has operands that its arity accepts, so of several short ones the report is about the one that is
closed first, at whatever depth. -/

namespace PrefixCalc
set_option autoImplicit false

namespace Text

/-- The piece of the text from the start of the first lexeme to the end of the last one. -/
def pieceOf (t : Text) (ls : List Lexeme) : Text :=
  (t.take ((ls.map Lexeme.stop).getLastD 0)).drop ((ls.map Lexeme.start).headD 0)

/-- The text has an operation in brackets with this symbol, and the last lexeme of it closes it.
Its operands are items, whether expressions or not. -/
def HasOperation (t : Text) (op : Operator) (k : Nat) (closing : Lexeme) : Prop :=
  ∃ ls opening operator ms rest,
    t.lexemes = ls ++ opening :: operator :: (ms ++ closing :: rest) ∧ opening.text = ['('] ∧
    operator.text = op.symbol ∧ closing.text = [')'] ∧ Items k (Parse.texts ms)

section Pieces
variable {t : Text} {ls ms ns : List Lexeme} {k l : Lexeme}

theorem words_drop_start (h : t.lexemes = ls ++ l :: ms) :
    words (t.drop l.start) = Parse.texts (l :: ms) := by
  obtain ⟨p, q, ht, hp, _, hparted⟩ := exists_around h
  have htake : t.take l.start = p := by
    rw [ht, ← hp, List.take_left]
  have hdrop : t.drop l.start = l.text ++ q := by
    rw [ht, ← hp, List.drop_left]
  have hfirst : p.words = Parse.texts ls := by
    rw [← htake, words, lexemes_take_start h]
    rfl
  have hwords : t.words = p.words ++ words (l.text ++ q) := by
    rw [← words_append hparted, ← ht]
  have hall : t.words = Parse.texts ls ++ Parse.texts (l :: ms) := by
    rw [words, h]
    exact Parse.texts_append _ _
  rw [hdrop]
  rw [hwords, hfirst] at hall
  exact List.append_cancel_left hall

theorem words_pieceOf (h : t.lexemes = ls ++ (ms ++ ns)) :
    words (t.pieceOf ms) = Parse.texts ms := by
  rcases List.eq_nil_or_concat' ms with rfl | ⟨ks, b, hms⟩
  · exact words_of_isBlanks isBlanks_nil
  · have hne : ms ≠ [] := by
      rw [hms]
      exact List.append_ne_nil_of_right_ne_nil _ (List.cons_ne_nil _ _)
    obtain ⟨a, as, has⟩ := List.exists_cons_of_ne_nil hne
    have hlast : t.lexemes = (ls ++ ks) ++ b :: ns := by
      rw [h, hms]
      simp only [List.append_assoc, List.singleton_append]
    have htake : lexemes (t.take b.stop) = ls ++ a :: as := by
      rw [lexemes_take_stop hlast, List.append_assoc, ← hms, has]
    have hstart : (ms.map Lexeme.start).headD 0 = a.start := by
      rw [has]
      rfl
    have hstop : (ms.map Lexeme.stop).getLastD 0 = b.stop := by
      simp [hms]
    rw [pieceOf, hstart, hstop, has]
    exact words_drop_start htake

/-- Of two lexemes of a text the one that starts first comes first. -/
theorem exists_between (h : t.lexemes = ls ++ k :: ms) {ls' ms' : List Lexeme}
    (h' : t.lexemes = ls' ++ l :: ms') (hlt : k.start < l.start) :
    ∃ ks, ls' = ls ++ k :: ks := by
  have hpairwise := t.tiles_lexemes.pairwise_start
  rcases List.append_eq_append_iff.mp (h.symm.trans h') with ⟨ks, hls, hk⟩ | ⟨ks, hls, hl⟩
  · cases ks with
    | nil =>
      obtain ⟨rfl, _⟩ := List.cons.inj hk
      exact absurd hlt (Nat.lt_irrefl _)
    | cons k' ks =>
      obtain ⟨rfl, _⟩ := List.cons.inj hk
      exact ⟨ks, hls⟩
  · -- the later lexeme would come before the earlier one
    exfalso
    cases ks with
    | nil =>
      obtain ⟨rfl, _⟩ := List.cons.inj hl
      exact Nat.lt_irrefl _ hlt
    | cons l' ks =>
      obtain ⟨rfl, _⟩ := List.cons.inj hl
      rw [h, hls, List.append_assoc] at hpairwise
      have hlater := (List.pairwise_append.mp hpairwise).2.1
      have hlt' := (List.pairwise_cons.mp hlater).1 k List.mem_append_cons_self
      exact Nat.lt_asymm hlt hlt'

end Pieces
end Text

namespace Parse
variable {t : Text}

/-- Lexemes that operands are derived from fall into as many pieces of the text, each of which is
parsed on its own. -/
theorem exists_pieces : ∀ {es : List Expr} {ts : List Text}, DerivesAll es ts →
    ∀ {ls ms ns : List Lexeme}, texts ms = ts → t.lexemes = ls ++ (ms ++ ns) →
    ∃ pieces : List (List Lexeme), ms = pieces.flatten ∧ pieces.length = es.length ∧
      ∀ ks ∈ pieces, Text.words (t.pieceOf ks) = texts ks ∧ ∃ e, parse (t.pieceOf ks) = .ok e
  | _, _, .nil, _, _, _, hms, _ => ⟨[], List.map_eq_nil_iff.mp hms, rfl, List.forall_mem_nil _⟩
  | _, _, @DerivesAll.cons e _ _ _ head tail, ls, ms, ns, hms, hall => by
    obtain ⟨ks, ms, rfl, hks, hms⟩ := List.map_eq_append_iff.mp hms
    rw [List.append_assoc] at hall
    have hwords : Text.words (t.pieceOf ks) = texts ks := Text.words_pieceOf hall
    have hparse : parse (t.pieceOf ks) = .ok e := by
      rw [parse_eq_ok_iff, hwords, texts, hks]
      exact head
    rw [← List.append_assoc] at hall
    obtain ⟨pieces, rfl, hlength, hpieces⟩ := exists_pieces tail hms hall
    exact ⟨ks :: pieces, rfl, congrArg (· + 1) hlength,
      List.forall_mem_cons.mpr ⟨⟨hwords, e, hparse⟩, hpieces⟩⟩

/-- Before a refused lexeme every closed operation has a number of operands that its arity
accepts. -/
theorem Refused.accepts {ls rest : List Lexeme} {l : Lexeme} {cause : ParseError.Cause}
    {op : Operator} {k : Nat} {closing : Lexeme} (h : Refused ls l cause)
    (hall : t.lexemes = ls ++ l :: rest) (hop : t.HasOperation op k closing)
    (hlt : closing.start < l.start) : op.arity.accepts k = true := by
  obtain ⟨as, opening, operator, ms, bs, hall', hopening, hoperator, hclosing, hitems⟩ := hop
  have hsplit : t.lexemes = (as ++ opening :: operator :: ms) ++ closing :: bs := by
    rw [hall']
    simp
  obtain ⟨ks, rfl⟩ := Text.exists_between hsplit hall hlt
  obtain ⟨us, e, _, he⟩ := h.viable
  simp only [texts_append, texts_cons, hopening, hoperator, hclosing, List.append_assoc,
    List.cons_append] at he
  exact he.accepts_of_items hitems

end Parse

/-- A report of too few operands is about an operation of a fixed arity with less complete operands
than that between its symbol and its closing bracket, and every operation that is closed before
it has as many operands as its arity accepts. -/
theorem short_operation_closed_first {t : Text} {err : ParseError} (h : parse t = .error err)
    (hkind : err.kind = .wrongOperandsQty) :
    ∃ (op : Operator) (n : Nat) (ls rest : List Lexeme) (opening operator closing : Lexeme)
      (operands : List (List Lexeme)),
      op.arity = .fixed n ∧ operands.length < n ∧
      err.payload = ⟨none, some op.symbol, some n, some operands.length⟩ ∧
      t.lexemes = ls ++ opening :: operator :: (operands.flatten ++ closing :: rest) ∧
      opening.text = ['('] ∧ operator.text = op.symbol ∧ closing.text = [')'] ∧
      err.position = opening.stop + 1 ∧
      (err.position : Int) + err.length = operator.stop + 1 ∧
      (∀ ks ∈ operands, Text.words (t.pieceOf ks) = Parse.texts ks ∧
        ∃ e, parse (t.pieceOf ks) = .ok e) ∧
      t.HasOperation op operands.length closing ∧
      ∀ op' k closing', t.HasOperation op' k closing' → closing'.start < closing.start →
        op'.arity.accepts k = true := by
  obtain ⟨source, cause⟩ := err
  obtain ⟨ks, l, hr, hrefused⟩ := Parse.exists_refused h (by rw [hkind]; decide)
  have haccepts : ∀ rest, t.lexemes = ks ++ l :: rest → ∀ op' k closing',
      t.HasOperation op' k closing' → closing'.start < l.start → op'.arity.accepts k = true := by
    intro rest hall op' k closing' hop hlt
    exact hrefused.accepts hall hop hlt
  cases hrefused with
  | @wrongOperandsQty stack f ls ms l n outer inner bracket arity short =>
    cases inner with
    | @mk ms opening operator operands =>
      rcases hr.cases with ⟨rest, hall⟩ | ⟨_, rfl⟩
      · have hall' : t.lexemes = (ls ++ [f.opening, f.operator]) ++ (ms ++ l :: rest) := by
          rw [hall]
          simp
        obtain ⟨pieces, rfl, hlength, hpieces⟩ := Parse.exists_pieces operands rfl hall'
        have hlexemes : t.lexemes =
            ls ++ f.opening :: f.operator :: (pieces.flatten ++ l :: rest) := by
          rw [hall']
          simp
        refine ⟨f.op, n, ls, rest, f.opening, f.operator, l, pieces, arity, hlength ▸ short, ?_,
          hlexemes, opening, operator, bracket, rfl, ?_, hpieces, ?_, haccepts rest hall⟩
        · rw [hlength]
          rfl
        · change ((f.opening.stop + 1 : Nat) : Int) + (f.operator.stop - f.opening.stop) = _
          omega
        · refine ⟨ls, f.opening, f.operator, pieces.flatten, rest, hlexemes, opening, operator,
            bracket, ?_⟩
          rw [hlength]
          exact operands.items
      · cases bracket
  | _ => cases hkind

/-- Two short operations inside another one: the report is about the first of them. -/
theorem short_difference_closed_first :
    let t : Text := "(+ (negate x) (- z) (negate))".toList
    let err : ParseError := ⟨t, .wrongOperandsQty "-".toList 2 1 15 16⟩
    parse t = .error err ∧ err.kind = .wrongOperandsQty ∧
      ∃ (op : Operator) (n : Nat) (operands : List (List Lexeme)) (closing : Lexeme),
        op.arity = .fixed n ∧ operands.length < n ∧
        err.payload = ⟨none, some op.symbol, some n, some operands.length⟩ ∧
        (∀ ks ∈ operands, ∃ e, parse (t.pieceOf ks) = .ok e) ∧
        t.HasOperation op operands.length closing ∧
        ∀ op' k closing', t.HasOperation op' k closing' → closing'.start < closing.start →
          op'.arity.accepts k = true := by
  intro t err
  have h : parse t = .error err := by
    have hall : t.lexemes = ([⟨['('], 0⟩, ⟨['+'], 1⟩, ⟨['('], 3⟩, ⟨"negate".toList, 4⟩, ⟨['x'], 11⟩,
        ⟨[')'], 12⟩] ++ [⟨['('], 14⟩, ⟨['-'], 15⟩, ⟨['z'], 17⟩]) ++
          ⟨[')'], 18⟩ :: [⟨['('], 20⟩, ⟨"negate".toList, 21⟩, ⟨[')'], 27⟩, ⟨[')'], 28⟩] := by
      decide +kernel
    have hnegate : Derives (.node .negate [.var .x]) [['('], "negate".toList, ['x'], [')']] :=
      .node rfl (.singleton (.var .x))
    have hsum : Parse.Frame.ReadFrom ⟨⟨['('], 0⟩, ⟨['+'], 1⟩, .add, [.node .negate [.var .x]]⟩
        [⟨['('], 0⟩, ⟨['+'], 1⟩, ⟨['('], 3⟩, ⟨"negate".toList, 4⟩, ⟨['x'], 11⟩, ⟨[')'], 12⟩] :=
      .mk rfl rfl (.singleton hnegate) (by rintro n ⟨⟩; decide)
    have hdifference : Parse.Frame.ReadFrom ⟨⟨['('], 14⟩, ⟨['-'], 15⟩, .subtract, [.var .z]⟩
        [⟨['('], 14⟩, ⟨['-'], 15⟩, ⟨['z'], 17⟩] :=
      .mk rfl rfl (.singleton (.var .z)) (by rintro n ⟨⟩; decide)
    exact Parse.parse_of_refused (by decide) (Text.reads_of_lexemes hall)
      (.wrongOperandsQty (.cons .nil rfl hsum) hdifference rfl rfl (by decide))
  obtain ⟨op, n, _, _, _, _, closing, operands, arity, short, payload, _, _, _, _, _, _, hpieces,
    hop, haccepts⟩ := short_operation_closed_first h rfl
  exact ⟨h, rfl, op, n, operands, closing, arity, short, payload, fun ks hks => (hpieces ks hks).2,
    hop, haccepts⟩

end PrefixCalc
