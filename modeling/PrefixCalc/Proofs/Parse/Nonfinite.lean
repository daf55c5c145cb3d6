import PrefixCalc.Proofs.Expr.Constant
import PrefixCalc.Proofs.Lexeme.Concat
import PrefixCalc.Proofs.Parse.Unreadable

/-! # Trees with an infinity or not-a-number

The bracketed form of a tree with a constant that is not finite is refused, and at the first such
constant in preorder: the operands before it are read, and it cannot start an operand. A tree that
is such a constant is refused as a lexeme that cannot be read. -/

namespace PrefixCalc
set_option autoImplicit false

namespace Expr

/-! ## Places of subtrees -/

mutual

/-- All subtrees in preorder, each with the place where its bracketed form starts. -/
def placed (pos : Nat) : Expr → List (Nat × Expr)
  | const v => [(pos, const v)]
  | var i => [(pos, var i)]
  | node op es => (pos, node op es) :: placedList (pos + 1 + op.symbol.length) es

/-- The places of operands, each with a blank before it. -/
def placedList (pos : Nat) : List Expr → List (Nat × Expr)
  | [] => []
  | e :: es => placed (pos + 1) e ++ placedList (pos + 1 + e.toPrefix.length) es

end

mutual

theorem map_snd_placed : ∀ (e : Expr) (pos : Nat), (e.placed pos).map (·.2) = e.preorder
  | const v, pos => by rw [placed, preorder, List.map_singleton]
  | var i, pos => by rw [placed, preorder, List.map_singleton]
  | node op es, pos => by rw [placed, preorder, List.map_cons, map_snd_placedList es]

theorem map_snd_placedList : ∀ (es : List Expr) (pos : Nat),
    (placedList pos es).map (·.2) = preorderList es
  | [], pos => by rw [placedList, preorderList, List.map_nil]
  | e :: es, pos => by
    rw [placedList, preorderList, List.map_append, map_snd_placed e, map_snd_placedList es]

end

mutual

/-- The bracketed form of a subtree is the piece of the text at its place. -/
theorem exists_piece_of_mem_placed {i : Nat} {s : Expr} : ∀ (e : Expr) {pos : Nat},
    (i, s) ∈ e.placed pos →
    ∃ p q, e.toPrefix = p ++ (s.toPrefix ++ q) ∧ pos + p.length = i
  | const v, pos, h => by
    rw [placed] at h
    cases List.mem_singleton.1 h
    exact ⟨[], [], (List.append_nil _).symm, rfl⟩
  | var j, pos, h => by
    rw [placed] at h
    cases List.mem_singleton.1 h
    exact ⟨[], [], (List.append_nil _).symm, rfl⟩
  | node op es, pos, h => by
    rw [placed] at h
    rcases List.mem_cons.1 h with heq | h
    · cases heq
      exact ⟨[], [], (List.append_nil _).symm, rfl⟩
    · obtain ⟨p, q, htext, hlen⟩ := exists_piece_of_mem_placedList es h
      refine ⟨'(' :: (op.symbol ++ p), q ++ [')'], ?_, ?_⟩
      · rw [toPrefix, htext]
        simp only [List.cons_append, List.append_assoc]
      · rw [List.length_cons, List.length_append]
        omega

theorem exists_piece_of_mem_placedList {i : Nat} {s : Expr} : ∀ (es : List Expr) {pos : Nat},
    (i, s) ∈ placedList pos es →
    ∃ p q, operandsText es = p ++ (s.toPrefix ++ q) ∧ pos + p.length = i
  | [], pos, h => by
    rw [placedList] at h
    cases h
  | e :: es, pos, h => by
    rw [placedList] at h
    rw [operandsText_cons]
    rcases List.mem_append.1 h with h | h
    · obtain ⟨p, q, htext, hlen⟩ := exists_piece_of_mem_placed e h
      refine ⟨' ' :: p, q ++ operandsText es, ?_, ?_⟩
      · rw [htext]
        simp only [List.cons_append, List.append_assoc]
      · rw [List.length_cons]
        omega
    · obtain ⟨p, q, htext, hlen⟩ := exists_piece_of_mem_placedList es h
      refine ⟨' ' :: (e.toPrefix ++ p), q, ?_, ?_⟩
      · rw [htext]
        simp only [List.cons_append, List.append_assoc]
      · rw [List.length_cons, List.length_append]
        omega

end

/-! ## The first constant that is not finite -/

/-- The place and the value of a constant that is not finite. -/
def nonfinite? : Nat × Expr → Option (Nat × Binary64)
  | (i, const v) => if v.isFinite then none else some (i, v)
  | _ => none

/-- The first constant in preorder that is not finite, with its place in the bracketed form. -/
def firstNonfinite? (t : Expr) : Option (Nat × Binary64) := (t.placed 0).findSome? nonfinite?

theorem nonfinite?_eq_none_iff {p : Nat × Expr} :
    nonfinite? p = none ↔ ∀ v, p.2 = const v → v.isFinite = true := by
  obtain ⟨j, e⟩ := p
  cases e <;> simp [nonfinite?]

theorem nonfinite?_eq_some_iff {p : Nat × Expr} {i : Nat} {v : Binary64} :
    nonfinite? p = some (i, v) ↔ p = (i, const v) ∧ v.isFinite = false := by
  obtain ⟨j, e⟩ := p
  cases e with
  | const w =>
    simp only [nonfinite?, Option.ite_none_left_eq_some, Option.some.injEq, Prod.mk.injEq,
      const.injEq, Bool.not_eq_true]
    constructor
    · rintro ⟨hw, rfl, rfl⟩
      exact ⟨⟨rfl, rfl⟩, hw⟩
    · rintro ⟨⟨rfl, rfl⟩, hw⟩
      exact ⟨hw, rfl, rfl⟩
  | var => simp [nonfinite?]
  | node => simp [nonfinite?]

theorem findSome?_nonfinite?_eq_none_iff {e : Expr} {pos : Nat} :
    (e.placed pos).findSome? nonfinite? = none ↔
      ∀ v, .const v ∈ e.preorder → v.isFinite = true := by
  rw [List.findSome?_eq_none_iff, ← map_snd_placed e pos]
  simp only [nonfinite?_eq_none_iff, List.mem_map]
  constructor
  · rintro h v ⟨p, hp, hv⟩
    exact h p hp v hv
  · intro h p hp v hv
    exact h v ⟨p, hp, hv⟩

/-! ## Lexemes of the bracketed form -/

theorem lexemes_format (v : Binary64) (pos : Nat) :
    Remainder.lexemes ⟨v.format, pos⟩ = [⟨v.format, pos⟩] := by
  have h := Remainder.lexemes_word_append pos v.format_ne_nil v.isWord_of_mem_format
    (Text.stopsAt_nil Text.isWord)
  rwa [List.append_nil, Remainder.lexemes_of_isBlanks _ Text.isBlanks_nil] at h

theorem lexemes_node (op : Operator) (es : List Expr) (pos : Nat) :
    ∃ ls, Remainder.lexemes ⟨(node op es).toPrefix, pos⟩ =
      ⟨['('], pos⟩ :: ⟨op.symbol, pos + 1⟩ ::
        (Remainder.lexemes ⟨operandsText es, pos + 1 + op.symbol.length⟩ ++ ls) := by
  have hop := Remainder.lexemes_word_append (pos + 1) (symbol_ne_nil op) (isWord_of_mem_symbol op)
    (stopsAt_operandsText es [])
  have hes := Remainder.lexemes_append (pos + 1 + op.symbol.length)
    (.inr (Text.stopsAt_closing []) : Text.Parted (operandsText es) [')'])
  rw [hes] at hop
  rw [toPrefix, List.append_assoc, Remainder.lexemes_cons_bracket _ _ (by decide), hop]
  exact ⟨_, rfl⟩

theorem lexemes_operandsText_cons (e : Expr) (es : List Expr) (pos : Nat) :
    Remainder.lexemes ⟨operandsText (e :: es), pos⟩ =
      Remainder.lexemes ⟨e.toPrefix, pos + 1⟩ ++
        Remainder.lexemes ⟨operandsText es, pos + 1 + e.toPrefix.length⟩ := by
  have hstop := stopsAt_operandsText_append es (Text.stopsAt_nil Text.isWord)
  rw [List.append_nil] at hstop
  have hspace := Remainder.lexemes_blanks_append (e.toPrefix ++ operandsText es) pos
    Text.isBlanks_space
  rw [operandsText_cons]
  exact hspace.trans (Remainder.lexemes_append _ (.inr hstop))

end Expr

namespace Parse

/-- The lexeme comes next where an open operation takes another operand. -/
def MeetsOperand (ls : List Lexeme) (l : Lexeme) : Prop :=
  ∃ (f : Frame) (stack : List Frame) (os rest : List Lexeme), StackReadFrom (f :: stack) os ∧
    ls = os ++ l :: rest

theorem MeetsOperand.append {ls : List Lexeme} {l : Lexeme} (h : MeetsOperand ls l)
    (ks : List Lexeme) : MeetsOperand (ls ++ ks) l := by
  obtain ⟨f, stack, os, rest, outer, rfl⟩ := h
  refine ⟨f, stack, os, rest ++ ks, outer, ?_⟩
  rw [List.append_assoc, List.cons_append]

/-- A lexeme that is no operand, where an operation takes one, stands for a missing bracket. -/
theorem MeetsOperand.parse_eq {t : Text} {l : Lexeme} (h : MeetsOperand t.lexemes l)
    (hl : Text.startsOperand l.text = false) (hbracket : l.text ≠ [')']) :
    parse t = .error ⟨t, .wrongBracketSequence l.start⟩ := by
  obtain ⟨f, stack, os, rest, outer, hall⟩ := h
  cases outer with
  | cons outer more inner =>
    obtain ⟨c, hc, rfl⟩ := exists_collecting outer inner more (Text.reads_of_lexemes hall)
    exact hc.parse_of_ends hl hbracket

mutual

/-- The machine takes the operands before the first constant that is not finite, in operations
that are open or are opened on the way, and meets the constant as an operand. -/
theorem meets_toPrefix : ∀ (e : Expr) {stack : List Frame} {os : List Lexeme} {pos i : Nat}
    {v : Binary64}, StackReadFrom stack os → (∀ w, e = .const w → stack ≠ []) → e.WellFormed →
    (e.placed pos).findSome? Expr.nonfinite? = some (i, v) →
    MeetsOperand (os ++ Remainder.lexemes ⟨e.toPrefix, pos⟩) ⟨v.format, i⟩
  | .const w, stack, os, pos, i, v, outer, inside, _, hfirst => by
    rw [Expr.placed, List.findSome?_singleton, Expr.nonfinite?_eq_some_iff] at hfirst
    cases hfirst.1
    obtain ⟨f, stack, rfl⟩ := List.exists_cons_of_ne_nil (inside w rfl)
    rw [Expr.toPrefix, Expr.lexemes_format]
    exact ⟨f, stack, os, _, outer, rfl⟩
  | .var j, _, _, pos, i, v, _, _, _, hfirst => by
    rw [Expr.placed, List.findSome?_singleton] at hfirst
    cases hfirst
  | .node op es, stack, os, pos, i, v, outer, _, hwf, hfirst => by
    cases hwf with
    | node count operands =>
      rw [Expr.placed, List.findSome?_cons] at hfirst
      obtain ⟨ks, hlexemes⟩ := Expr.lexemes_node op es pos
      have opened : Frame.ReadFrom ⟨⟨['('], pos⟩, ⟨op.symbol, pos + 1⟩, op, []⟩
          [⟨['('], pos⟩, ⟨op.symbol, pos + 1⟩] :=
        .mk rfl rfl .nil fun _ _ => Nat.zero_le _
      have bound : ∀ n, op.arity = .fixed n → 0 + es.length ≤ n := by
        intro n hn
        rw [Arity.eq_of_accepts count hn, Nat.zero_add]
      have hes := meets_operandsText es outer opened bound operands hfirst
      rw [hlexemes]
      simpa using hes.append ks

theorem meets_operandsText : ∀ (es : List Expr) {stack : List Frame} {f : Frame}
    {os ms : List Lexeme} {pos i : Nat} {v : Binary64}, StackReadFrom stack os → f.ReadFrom ms →
    (∀ n, f.op.arity = .fixed n → f.operands.length + es.length ≤ n) →
    (∀ e ∈ es, e.WellFormed) → (Expr.placedList pos es).findSome? Expr.nonfinite? = some (i, v) →
    MeetsOperand (os ++ ms ++ Remainder.lexemes ⟨Expr.operandsText es, pos⟩) ⟨v.format, i⟩
  | [], _, _, _, _, _, _, _, _, _, _, _, hfirst => by
    rw [Expr.placedList] at hfirst
    cases hfirst
  | e :: es, stack, f, os, ms, pos, i, v, outer, inner, bound, hwf, hfirst => by
    obtain ⟨he, hes⟩ := List.forall_mem_cons.1 hwf
    rw [List.length_cons] at bound
    have more : f.wantsMore = true := by
      rw [Frame.wantsMore_iff]
      intro n hn
      have := bound n hn
      omega
    rw [Expr.placedList, List.findSome?_append] at hfirst
    rw [Expr.lexemes_operandsText_cons, ← List.append_assoc]
    cases hhead : (e.placed (pos + 1)).findSome? Expr.nonfinite? with
    | some p =>
      rw [hhead] at hfirst
      cases hfirst
      have := meets_toPrefix e (.cons outer more inner) (fun _ _ => List.cons_ne_nil _ _) he hhead
      exact this.append _
    | none =>
      -- all constants of the operand are finite, and it is read
      rw [hhead] at hfirst
      have hderives := Expr.derives_prefixWords he (Expr.findSome?_nonfinite?_eq_none_iff.1 hhead)
      rw [← Expr.words_toPrefix, ← Text.words_eq_of_pos _ (pos + 1)] at hderives
      have hbound : ∀ n, f.op.arity = .fixed n → (f.push e).operands.length + es.length ≤ n := by
        intro n hn
        rw [Frame.push, List.length_append, List.length_singleton, Nat.add_assoc, Nat.add_comm 1]
        exact bound n hn
      have htail := meets_operandsText es outer (inner.push more hderives) hbound hes hfirst
      rwa [← List.append_assoc] at htail

end

/-- Of the constants that are not finite, only the negative infinity starts like a number. -/
theorem parse_format_nonfinite {v : Binary64} (h : v.isFinite = false) :
    ∃ err, parse v.format = .error err ∧
      err.kind = (if v = .inf true then .wrongConst else .unknownLexeme) ∧ err.position = 1 ∧
      err.length = v.format.length ∧ err.payload = ⟨some v.format, none, none, none⟩ := by
  have hr : Text.Reads v.format [] ⟨v.format, 0⟩ :=
    Text.reads_of_lexemes (Expr.lexemes_format v 0)
  have hlength : ((0 + v.format.length : Nat) : Int) - (0 : Nat) = v.format.length := by omega
  by_cases hv : v = .inf true
  · subst hv
    have hrefused : Refused [] ⟨(Binary64.inf true).format, 0⟩ _ :=
      .wrongConst (by decide) (by decide)
    exact ⟨_, parse_of_refused (Binary64.format_ne_nil _) hr hrefused, rfl, rfl, hlength, rfl⟩
  · have hstart : Text.startsConst v.format = false := by
      cases v with
      | finite s m => cases h
      | nan => rfl
      | inf s =>
        cases s with
        | true => exact absurd rfl hv
        | false => rfl
    have hrefused : Refused [] ⟨v.format, 0⟩ _ :=
      .unknownLexeme .nil (fun hne => absurd rfl hne) (v.format_ne_bracket (by decide))
        v.ofName?_format hstart
    rw [if_neg hv]
    exact ⟨_, parse_of_refused v.format_ne_nil hr hrefused, rfl, rfl, hlength, rfl⟩

/-- A constant that is not finite ends the operands before it, and no bracket closes them. -/
theorem parse_of_meetsOperand {t : Text} {v : Binary64} {i : Nat} (hv : v.isFinite = false)
    (h : MeetsOperand t.lexemes ⟨v.format, i⟩) :
    parse t = .error ⟨t, .wrongBracketSequence i⟩ := by
  refine h.parse_eq ?_ (v.format_ne_bracket (by decide))
  rw [Bool.eq_false_iff]
  intro hstarts
  rw [isFinite_of_isToken (isToken_of_startsOperand hstarts)] at hv
  cases hv

end Parse

theorem Expr.exists_firstNonfinite {t : Expr}
    (hv : ∃ v, .const v ∈ t.preorder ∧ v.isFinite = false) :
    ∃ i v, t.firstNonfinite? = some (i, v) ∧ (i, .const v) ∈ t.placed 0 ∧ v.isFinite = false := by
  obtain ⟨w, hw, hfinite⟩ := hv
  cases hfirst : t.firstNonfinite? with
  | none =>
    rw [findSome?_nonfinite?_eq_none_iff.mp hfirst w hw] at hfinite
    cases hfinite
  | some p =>
    obtain ⟨i, v⟩ := p
    obtain ⟨q, hq, hsome⟩ := List.exists_of_findSome?_eq_some hfirst
    obtain ⟨rfl, hnot⟩ := nonfinite?_eq_some_iff.mp hsome
    exact ⟨i, v, rfl, hq, hnot⟩

/-- The bracketed form of a tree with a constant that is not finite is refused, and at the first
such constant in preorder: a tree that is this constant as a whole, a negative infinity as a wrong
constant and the others as an unknown lexeme; any other tree because a bracket is missing there. -/
theorem parse_toPrefix_nonfinite {t : Expr} (h : t.WellFormed)
    (hv : ∃ v, .const v ∈ t.preorder ∧ v.isFinite = false) :
    (t.placed 0).map (·.2) = t.preorder ∧
    (∀ i s, (i, s) ∈ t.placed 0 →
      ∃ p q, t.toPrefix = p ++ (s.toPrefix ++ q) ∧ p.length = i) ∧
    ∃ i v err, t.firstNonfinite? = some (i, v) ∧ parse t.toPrefix = .error err ∧
      err.position = i + 1 ∧
      (t = .const v → err.kind = (if v = .inf true then .wrongConst else .unknownLexeme) ∧
        err.position = 1 ∧ err.length = t.toPrefix.length ∧
        err.payload = ⟨some t.toPrefix, none, none, none⟩) ∧
      (t ≠ .const v → err.kind = .wrongBracketSequence) := by
  refine ⟨t.map_snd_placed 0, ?_, ?_⟩
  · intro i s hs
    obtain ⟨p, q, htext, hlen⟩ := Expr.exists_piece_of_mem_placed t hs
    exact ⟨p, q, htext, (Nat.zero_add _).symm.trans hlen⟩
  · obtain ⟨i, v, hfirst, hmem, hfinite⟩ := Expr.exists_firstNonfinite hv
    by_cases ht : ∃ w, t = .const w
    · obtain ⟨w, rfl⟩ := ht
      rw [Expr.placed] at hmem
      cases List.mem_singleton.mp hmem
      obtain ⟨err, herr, hkind, hposition, hlength, hpayload⟩ :=
        Parse.parse_format_nonfinite hfinite
      rw [Expr.toPrefix]
      exact ⟨0, v, err, hfirst, herr, hposition, fun _ => ⟨hkind, hposition, hlength, hpayload⟩,
        fun hne => absurd rfl hne⟩
    · have hmeets := Parse.meets_toPrefix t .nil (fun w hw => absurd ⟨w, hw⟩ ht) h hfirst
      refine ⟨i, v, _, hfirst, Parse.parse_of_meetsOperand hfinite hmeets, rfl, ?_, fun _ => rfl⟩
      exact fun hconst => absurd ⟨v, hconst⟩ ht

/-- A negative infinity behind operands that are read, and before not-a-number. -/
theorem negative_infinity_refused_as_operand :
    let t : Expr := .node .add [.const .one,
      .node .arithmeticMean [.var .x, .const (.inf true), .const .nan]]
    t.WellFormed ∧ (∃ v, .const v ∈ t.preorder ∧ v.isFinite = false) ∧
      t.toPrefix = "(+ 1 (arith-mean x -inf nan))".toList ∧
      ∃ err, parse "(+ 1 (arith-mean x -inf nan))".toList = .error err ∧
        err.kind = .wrongBracketSequence ∧ err.position = 20 := by
  intro t
  have hwf : t.WellFormed := by
    refine .node rfl (List.forall_mem_cons.mpr ⟨.const _, ?_⟩)
    refine List.forall_mem_singleton.mpr (.node rfl ?_)
    intro e he
    simp only [List.mem_cons, List.not_mem_nil, or_false] at he
    rcases he with rfl | rfl | rfl
    · exact .var _
    · exact .const _
    · exact .const _
  have hv : ∃ v, .const v ∈ t.preorder ∧ v.isFinite = false :=
    ⟨.nan, by simp [t, Expr.preorder, Expr.preorderList], rfl⟩
  have hone : Binary64.one.format = ['1'] := by decide +kernel
  have ht : t.toPrefix = "(+ 1 (arith-mean x -inf nan))".toList := by
    simp only [t, Expr.toPrefix, Expr.operandsText, hone]
    decide
  have hplace : t.firstNonfinite? = some (19, .inf true) := by
    simp only [t, Expr.firstNonfinite?, Expr.placed, Expr.placedList, Expr.toPrefix, hone]
    decide +kernel
  obtain ⟨_, _, i, v, err, hfirst, herr, hposition, _, hkind⟩ := parse_toPrefix_nonfinite hwf hv
  rw [hplace] at hfirst
  cases hfirst
  rw [ht] at herr
  refine ⟨hwf, hv, ht, err, herr, hkind ?_, hposition⟩
  simp [t]

end PrefixCalc
