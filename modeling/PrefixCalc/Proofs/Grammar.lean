import PrefixCalc.Parse.Machine

/-! # The grammar of expressions

An expression is derived from a list of words: a variable from its name, a constant from a
number that starts with a digit or a minus sign, an operation from an opening bracket, the
symbol of its operator, its operands in order and a closing bracket, when the arity accepts
the number of operands. No word of the list is left out and none is used twice, and no other
expression is derived from the same list. -/

namespace PrefixCalc
set_option autoImplicit false

mutual

inductive Derives : Expr → List Text → Prop where
  | var (i : Variable) : Derives (.var i) [i.name]
  | const {n : Text} {v : Binary64} (start : Text.startsConst n = true)
      (number : Text.isNumber n = true) (value : Text.toBinary64? n = some v) :
      Derives (.const v) [n]
  | node {op : Operator} {es : List Expr} {ts : List Text}
      (count : op.arity.accepts es.length = true) (operands : DerivesAll es ts) :
      Derives (.node op es) (['('] :: op.symbol :: (ts ++ [[')']]))

/-- The operands are derived from consecutive parts of the words. -/
inductive DerivesAll : List Expr → List Text → Prop where
  | nil : DerivesAll [] []
  | cons {e : Expr} {es : List Expr} {ts us : List Text} (head : Derives e ts)
      (tail : DerivesAll es us) : DerivesAll (e :: es) (ts ++ us)

end

theorem Arity.eq_of_accepts {a : Arity} {k n : Nat} (h : a.accepts k = true)
    (hn : a = .fixed n) : k = n := by
  rw [hn] at h
  exact eq_of_beq h

theorem isNumber_of_toBinary64? {t : Text} {v : Binary64} (h : Text.toBinary64? t = some v) :
    Text.isNumber t = true :=
  Text.isNumber_iff_exists_toBinary64?.2 ⟨v, h⟩

/-! ## Words -/

theorem symbol_ne_nil (op : Operator) : op.symbol ≠ [] := by
  cases op <;> decide

theorem isWord_of_mem_symbol (op : Operator) : ∀ c ∈ op.symbol, Text.isWord c = true := by
  cases op <;> exact List.all_eq_true.1 (by decide)

theorem name_ne_nil (i : Variable) : i.name ≠ [] := by
  cases i <;> decide

theorem isWord_of_mem_name (i : Variable) : ∀ c ∈ i.name, Text.isWord c = true := by
  cases i <;> exact List.all_eq_true.1 (by decide)

theorem Text.startsConst_iff {t : Text} :
    startsConst t = true ↔ ∃ c, t.head? = some c ∧ (c.isDigit = true ∨ c = '-') := by
  cases t with
  | nil => simp [startsConst]
  | cons c t => simp [startsConst]

theorem startsConst_ne_nil {t : Text} (h : Text.startsConst t = true) : t ≠ [] := by
  rintro rfl
  cases h

theorem startsConst_name (i : Variable) : Text.startsConst i.name = false := by
  cases i <;> decide

theorem name_ne_bracket (i : Variable) : i.name ≠ ['('] := by
  cases i <;> decide

theorem symbol_ne_bracket (op : Operator) : op.symbol ≠ ['('] := by
  cases op <;> decide

theorem name_injective {i j : Variable} (h : i.name = j.name) : i = j := by
  have hi := Variable.ofName?_name i
  rw [h, Variable.ofName?_name] at hi
  exact (Option.some.inj hi).symm

theorem symbol_injective {op op' : Operator} (h : op.symbol = op'.symbol) : op = op' := by
  have ho := Operator.ofSymbol?_symbol op
  rw [h, Operator.ofSymbol?_symbol] at ho
  exact (Option.some.inj ho).symm

theorem startsConst_opening : Text.startsConst ['('] = false := by decide

theorem ne_opening_of_startsConst {t : Text} (h : Text.startsConst t = true) : t ≠ ['('] := by
  rintro rfl
  rw [startsConst_opening] at h
  cases h

theorem ofName?_of_startsConst {t : Text} (h : Text.startsConst t = true) :
    Variable.ofName? t = none := by
  cases hi : Variable.ofName? t with
  | none => rfl
  | some i =>
    rw [← Variable.name_of_ofName? hi, startsConst_name] at h
    cases h

theorem ofSymbol?_of_toBinary64? {w : Text} {v : Binary64} (h : Text.toBinary64? w = some v) :
    Operator.ofSymbol? w = none := by
  cases hw : Operator.ofSymbol? w with
  | none => rfl
  | some op =>
    have hop : Text.toBinary64? op.symbol = none := by cases op <;> decide
    rw [Operator.symbol_of_ofSymbol? hw, h] at hop
    cases hop

theorem startsOperand_name (i : Variable) : Text.startsOperand i.name = true := by
  simp [Text.startsOperand, Variable.ofName?_name]

theorem startsOperand_of_isNumber {t : Text} (h : Text.isNumber t = true) :
    Text.startsOperand t = true := by
  simp [Text.startsOperand, h]

theorem startsOperand_opening : Text.startsOperand ['('] = true := by decide

theorem startsOperand_closing : Text.startsOperand [')'] = false := by decide

/-- The first word of an expression can start an operand. -/
theorem Derives.exists_head {e : Expr} {ts : List Text} (h : Derives e ts) :
    ∃ w ws, ts = w :: ws ∧ Text.startsOperand w = true := by
  cases h with
  | var i => exact ⟨_, _, rfl, startsOperand_name i⟩
  | const _ number => exact ⟨_, _, rfl, startsOperand_of_isNumber number⟩
  | node => exact ⟨_, _, rfl, startsOperand_opening⟩

theorem DerivesAll.append {es es' : List Expr} {ts ts' : List Text} (h : DerivesAll es ts)
    (h' : DerivesAll es' ts') : DerivesAll (es ++ es') (ts ++ ts') := by
  match h with
  | .nil => exact h'
  | .cons head tail =>
    rw [List.append_assoc]
    exact .cons head (tail.append h')

theorem DerivesAll.singleton {e : Expr} {ts : List Text} (h : Derives e ts) :
    DerivesAll [e] ts := by
  have := DerivesAll.cons h .nil
  rwa [List.append_nil] at this

mutual

theorem Derives.wellFormed : ∀ {e : Expr} {ts : List Text}, Derives e ts → e.WellFormed
  | _, _, .var i => .var i
  | _, _, .const _ _ _ => .const _
  | _, _, .node count operands => .node count operands.wellFormed

theorem DerivesAll.wellFormed :
    ∀ {es : List Expr} {ts : List Text}, DerivesAll es ts → ∀ e ∈ es, e.WellFormed
  | _, _, .nil => by
    intro e he
    cases he
  | _, _, .cons head tail => by
    intro e he
    rcases List.mem_cons.1 he with he | he
    · exact he ▸ head.wellFormed
    · exact tail.wellFormed e he

end

/-! ## One expression for each list of words -/

/-- A closing bracket ends a list of operands, since no operand starts with one. -/
theorem DerivesAll.eq_nil {es : List Expr} {ts r r' : List Text} (h : DerivesAll es ts)
    (heq : ts ++ [')'] :: r = [')'] :: r') : es = [] ∧ r = r' := by
  cases h with
  | nil => exact ⟨rfl, (List.cons.inj heq).2⟩
  | cons head _ =>
    obtain ⟨w, ws, rfl, hw⟩ := head.exists_head
    rw [(List.cons.inj heq).1, startsOperand_closing] at hw
    cases hw

/-- An expression that starts with the name of a variable is this variable. -/
theorem Derives.eq_of_name {e : Expr} {i : Variable} {ts r r' : List Text} (h : Derives e ts)
    (heq : i.name :: r = ts ++ r') : e = .var i ∧ r = r' := by
  cases h with
  | var j =>
    obtain ⟨hn, hr⟩ := List.cons.inj heq
    exact ⟨by rw [name_injective hn], hr⟩
  | const start =>
    rw [← (List.cons.inj heq).1, startsConst_name] at start
    cases start
  | node => exact absurd (List.cons.inj heq).1 (name_ne_bracket i)

theorem Derives.eq_of_number {e : Expr} {n : Text} {v : Binary64} {ts r r' : List Text}
    (h : Derives e ts) (hs : Text.startsConst n = true) (hv : Text.toBinary64? n = some v)
    (heq : n :: r = ts ++ r') : e = .const v ∧ r = r' := by
  cases h with
  | var i =>
    rw [(List.cons.inj heq).1, startsConst_name] at hs
    cases hs
  | const _ _ value =>
    obtain ⟨rfl, hr⟩ := List.cons.inj heq
    rw [hv] at value
    exact ⟨by rw [Option.some.inj value], hr⟩
  | node =>
    rw [(List.cons.inj heq).1, startsConst_opening] at hs
    cases hs

mutual

/-- An expression at the start of a list of words ends before just one of the words. -/
theorem Derives.unique : ∀ {e e' : Expr} {ts ts' r r' : List Text}, Derives e ts →
    Derives e' ts' → ts ++ r = ts' ++ r' → e = e' ∧ r = r'
  | _, _, _, _, _, _, .var i, h', heq => by
    obtain ⟨he, hr⟩ := h'.eq_of_name heq
    exact ⟨he.symm, hr⟩
  | _, _, _, _, _, _, .const start _ value, h', heq => by
    obtain ⟨he, hr⟩ := h'.eq_of_number start value heq
    exact ⟨he.symm, hr⟩
  | _, _, _, _, _, _, .node _ _, .var i, heq => by
    exact absurd (List.cons.inj heq).1.symm (name_ne_bracket i)
  | _, _, _, _, _, _, .node _ _, .const start _ _, heq => by
    rw [← (List.cons.inj heq).1, startsConst_opening] at start
    cases start
  | _, _, _, _, _, _, .node _ operands, .node _ operands', heq => by
    simp only [List.cons_append, List.append_assoc, List.nil_append, List.cons.injEq,
      true_and] at heq
    obtain ⟨hs, heq⟩ := heq
    obtain ⟨he, hr⟩ := operands.unique operands' heq
    exact ⟨by rw [symbol_injective hs, he], hr⟩

theorem DerivesAll.unique : ∀ {es es' : List Expr} {ts ts' r r' : List Text},
    DerivesAll es ts → DerivesAll es' ts' → ts ++ [')'] :: r = ts' ++ [')'] :: r' →
    es = es' ∧ r = r'
  | _, _, _, _, _, _, .nil, h', heq => by
    obtain ⟨he, hr⟩ := h'.eq_nil heq.symm
    exact ⟨he.symm, hr.symm⟩
  | _, _, _, _, _, _, .cons head tail, .nil, heq => (DerivesAll.cons head tail).eq_nil heq
  | _, _, _, _, _, _, .cons head tail, .cons head' tail', heq => by
    rw [List.append_assoc, List.append_assoc] at heq
    obtain ⟨he, heq⟩ := head.unique head' heq
    obtain ⟨hes, hr⟩ := tail.unique tail' heq
    exact ⟨by rw [he, hes], hr⟩

end

end PrefixCalc
