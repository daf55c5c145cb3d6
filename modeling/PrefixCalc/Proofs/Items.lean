import PrefixCalc.Proofs.Grammar

/-! # Items between brackets

Where the brackets of some words match, the words fall into items: single words, and words in
brackets. Their number is determined by the closing bracket behind them, and the operands of a
derived operation are its items. So an opening bracket among the words of an expression begins an
operation whose arity accepts the number of items up to the bracket that closes it. -/

namespace PrefixCalc
set_option autoImplicit false

/-- Words with matching brackets, and the number of items that they fall into. -/
inductive Items : Nat → List Text → Prop where
  | nil : Items 0 []
  | word {n : Nat} {w : Text} {ts : List Text} (opening : w ≠ ['(']) (closing : w ≠ [')'])
      (rest : Items n ts) : Items (n + 1) (w :: ts)
  | group {m n : Nat} {us ts : List Text} (inner : Items m us) (rest : Items n ts) :
      Items (n + 1) (['('] :: (us ++ [')'] :: ts))

theorem opening_ne_closing : (['('] : Text) ≠ [')'] := by decide

theorem name_ne_closing (i : Variable) : i.name ≠ [')'] := by
  cases i <;> decide

theorem symbol_ne_closing (op : Operator) : op.symbol ≠ [')'] := by
  cases op <;> decide

theorem ne_closing_of_startsConst {t : Text} (h : Text.startsConst t = true) : t ≠ [')'] := by
  rintro rfl
  revert h
  decide

namespace Items
variable {m n : Nat} {ts us : List Text}

theorem eq_nil {r r' : List Text} (h : Items n ts) (heq : ts ++ [')'] :: r = [')'] :: r') :
    n = 0 ∧ r = r' := by
  cases h with
  | nil => exact ⟨rfl, (List.cons.inj heq).2⟩
  | word _ closing => exact absurd (List.cons.inj heq).1 closing
  | group => exact absurd (List.cons.inj heq).1 opening_ne_closing

/-- The closing bracket behind the items determines their number. -/
theorem unique {r r' : List Text} (h : Items n ts) (h' : Items m us)
    (heq : ts ++ [')'] :: r = us ++ [')'] :: r') : n = m ∧ r = r' := by
  induction h generalizing m us r r' with
  | nil =>
    obtain ⟨hm, hr⟩ := h'.eq_nil heq.symm
    exact ⟨hm.symm, hr.symm⟩
  | word opening closing rest ih =>
    cases h' with
    | nil => exact absurd (List.cons.inj heq).1 closing
    | word _ _ rest' =>
      obtain ⟨hn, hr⟩ := ih rest' (List.cons.inj heq).2
      exact ⟨congrArg (· + 1) hn, hr⟩
    | group => exact absurd (List.cons.inj heq).1 opening
  | group inner rest ihInner ih =>
    cases h' with
    | nil => exact absurd (List.cons.inj heq).1 opening_ne_closing
    | word opening => exact absurd (List.cons.inj heq).1.symm opening
    | group inner' rest' =>
      simp only [List.cons_append, List.append_assoc, List.cons.injEq, true_and] at heq
      obtain ⟨_, heq⟩ := ihInner inner' heq
      obtain ⟨hn, hr⟩ := ih rest' heq
      exact ⟨congrArg (· + 1) hn, hr⟩

end Items

mutual

/-- An expression is one item. -/
theorem Derives.items_append : ∀ {e : Expr} {ts us : List Text} {n : Nat}, Derives e ts →
    Items n us → Items (n + 1) (ts ++ us)
  | _, _, _, _, .var i, h => .word (name_ne_bracket i) (name_ne_closing i) h
  | _, _, _, _, .const start _ _, h =>
    .word (ne_opening_of_startsConst start) (ne_closing_of_startsConst start) h
  | _, _, us, _, @Derives.node op es ts _ operands, h => by
    have hinner := Items.word (symbol_ne_bracket op) (symbol_ne_closing op) operands.items
    have hgroup := Items.group hinner h
    simpa using hgroup

theorem DerivesAll.items : ∀ {es : List Expr} {ts : List Text}, DerivesAll es ts →
    Items es.length ts
  | _, _, .nil => .nil
  | _, _, .cons head tail => head.items_append tail.items

end

/-! ## The operation behind an opening bracket -/

/-- The words begin with an operation without its opening bracket: a symbol, operands that its
arity accepts, and a closing bracket. -/
def OperationFollows (ts : List Text) : Prop :=
  ∃ op es us vs, ts = Operator.symbol op :: (us ++ [')'] :: vs) ∧
    op.arity.accepts es.length = true ∧ DerivesAll es us

theorem OperationFollows.append {ts : List Text} (h : OperationFollows ts) (us : List Text) :
    OperationFollows (ts ++ us) := by
  obtain ⟨op, es, ws, vs, rfl, count, operands⟩ := h
  exact ⟨op, es, ws, vs ++ us, by simp, count, operands⟩

/-- A word of two lists of words is in the first or in the second. -/
theorem exists_append_of_append_cons {ts us as rest : List Text} {w : Text}
    (h : ts ++ us = as ++ w :: rest) :
    (∃ bs, ts = as ++ w :: bs ∧ rest = bs ++ us) ∨ ∃ bs, us = bs ++ w :: rest := by
  rcases List.append_eq_append_iff.mp h with ⟨bs, _, hus⟩ | ⟨bs, hts, hrest⟩
  · exact Or.inr ⟨bs, hus⟩
  · cases bs with
    | nil => exact Or.inr ⟨[], hrest.symm⟩
    | cons b bs =>
      obtain ⟨rfl, rfl⟩ := List.cons.inj hrest
      exact Or.inl ⟨bs, hts, rfl⟩

theorem eq_of_singleton_eq_append {as rest : List Text} {v w : Text}
    (h : [v] = as ++ w :: rest) : v = w := by
  have hmem : w ∈ [v] := by
    rw [h]
    exact List.mem_append_cons_self
  exact (List.mem_singleton.mp hmem).symm

mutual

/-- Every opening bracket among the words of an expression begins an operation. -/
theorem Derives.operationFollows : ∀ {e : Expr} {ts as rest : List Text}, Derives e ts →
    ts = as ++ ['('] :: rest → OperationFollows rest
  | _, _, _, _, .var i, heq => absurd (eq_of_singleton_eq_append heq) (name_ne_bracket i)
  | _, _, _, _, .const start _ _, heq =>
    absurd (eq_of_singleton_eq_append heq) (ne_opening_of_startsConst start)
  | _, _, [], _, @Derives.node op es ts count operands, heq =>
    ⟨op, es, ts, [], (List.cons.inj heq).2.symm, count, operands⟩
  | _, _, [_], _, @Derives.node op _ _ _ _, heq =>
    absurd (List.cons.inj (List.cons.inj heq).2).1 (symbol_ne_bracket op)
  | _, _, _ :: _ :: as, rest, @Derives.node _ _ _ _ operands, heq => by
    rcases exists_append_of_append_cons (List.cons.inj (List.cons.inj heq).2).2 with
      ⟨bs, hts, rfl⟩ | ⟨bs, hlast⟩
    · exact (operands.operationFollows hts).append _
    · exact absurd (eq_of_singleton_eq_append hlast).symm opening_ne_closing

theorem DerivesAll.operationFollows : ∀ {es : List Expr} {ts as rest : List Text},
    DerivesAll es ts → ts = as ++ ['('] :: rest → OperationFollows rest
  | _, _, _, _, .nil, heq =>
    absurd heq.symm (List.append_ne_nil_of_right_ne_nil _ (List.cons_ne_nil _ _))
  | _, _, _, _, .cons head tail, heq => by
    rcases exists_append_of_append_cons heq with ⟨bs, hts, rfl⟩ | ⟨bs, hus⟩
    · exact (head.operationFollows hts).append _
    · exact tail.operationFollows hus

end

/-- In the words of an expression the arity of every operation accepts the number of its items. -/
theorem Derives.accepts_of_items {e : Expr} {op : Operator} {k : Nat} {as ms rest : List Text}
    (h : Derives e (as ++ ['('] :: op.symbol :: (ms ++ [')'] :: rest))) (hms : Items k ms) :
    op.arity.accepts k = true := by
  obtain ⟨op', es, us, vs, heq, count, operands⟩ := h.operationFollows rfl
  obtain ⟨hop, heq⟩ := List.cons.inj heq
  obtain ⟨hk, _⟩ := hms.unique operands.items heq
  rw [symbol_injective hop, hk]
  exact count

end PrefixCalc
