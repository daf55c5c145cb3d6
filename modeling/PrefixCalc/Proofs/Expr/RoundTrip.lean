import PrefixCalc.Proofs.Expr.Rendering
import PrefixCalc.Proofs.Parse.Recognition

/-! # Expressions read back from their bracketed form

An expression with finite constants is derived from its words. The infinities and
not-a-number are written as words that no derivation uses, so that an expression with such a
constant is not read back at all. -/

namespace PrefixCalc
set_option autoImplicit false

namespace Binary64

theorem startsConst_format {v : Binary64} (h : v.isFinite = true) :
    Text.startsConst v.format = true := by
  obtain ⟨⟨sign, whole, fraction, exponent⟩, hv, ht, _, hne, hplus⟩ := exists_literal_format h
  obtain ⟨c, ds, rfl⟩ := List.exists_cons_of_ne_nil hne
  rw [← ht, Literal.toText_eq]
  cases sign with
  | none => exact Bool.or_eq_true_iff.2 (.inl (hv.whole c List.mem_cons_self))
  | some s =>
    have hs : Text.isSign s = true := hv.sign s rfl
    rcases Bool.or_eq_true_iff.1 hs with hs | hs
    · exact absurd (congrArg some (eq_of_beq hs)) hplus
    · exact Bool.or_eq_true_iff.2 (.inr hs)

end Binary64

/-! ## Words of derivations -/

theorem derives_format {v : Binary64} (h : v.isFinite = true) : Derives (.const v) [v.format] := by
  have hb := Binary64.toBinary64?_format h
  exact .const (Binary64.startsConst_format h) (isNumber_of_toBinary64? hb) hb

/-- A word that can stand in a derivation. -/
def Text.isToken (t : Text) : Bool :=
  t == [')'] || (Operator.ofSymbol? t).isSome || startsOperand t

theorem isToken_of_startsOperand {t : Text} (h : Text.startsOperand t = true) :
    Text.isToken t = true :=
  Bool.or_eq_true_iff.2 (.inr h)

theorem isToken_symbol (op : Operator) : Text.isToken op.symbol = true := by
  cases op <;> decide

mutual

theorem Derives.isToken : ∀ {e : Expr} {ts : List Text}, Derives e ts →
    ∀ t ∈ ts, Text.isToken t = true
  | _, _, .var i => by
    intro t ht
    rw [List.mem_singleton.1 ht]
    exact isToken_of_startsOperand (startsOperand_name i)
  | _, _, .const _ number _ => by
    intro t ht
    rw [List.mem_singleton.1 ht]
    exact isToken_of_startsOperand (startsOperand_of_isNumber number)
  | _, _, .node _ operands => by
    intro t ht
    simp only [List.mem_cons, List.mem_append, List.not_mem_nil, or_false] at ht
    rcases ht with rfl | rfl | ht | rfl
    · decide
    · exact isToken_symbol _
    · exact operands.isToken t ht
    · decide

theorem DerivesAll.isToken : ∀ {es : List Expr} {ts : List Text}, DerivesAll es ts →
    ∀ t ∈ ts, Text.isToken t = true
  | _, _, .nil => by
    intro t ht
    cases ht
  | _, _, .cons head tail => by
    intro t ht
    rcases List.mem_append.1 ht with ht | ht
    · exact head.isToken t ht
    · exact tail.isToken t ht

end

/-- The words for an infinity and for not-a-number can stand in no derivation. -/
theorem isFinite_of_isToken {v : Binary64} (h : Text.isToken v.format = true) :
    v.isFinite = true := by
  cases v with
  | nan => exact absurd h (by decide)
  | inf s => cases s <;> exact absurd h (by decide)
  | finite s m => rfl

namespace Expr

mutual

theorem derives_prefixWords : ∀ {e : Expr}, e.WellFormed →
    (∀ v, .const v ∈ e.preorder → v.isFinite = true) → Derives e e.prefixWords
  | .const v, _, hf => by
    rw [prefixWords]
    exact derives_format (hf v (by rw [preorder]; exact List.mem_singleton_self _))
  | .var i, _, _ => by
    rw [prefixWords]
    exact .var i
  | .node op es, hwf, hf => by
    cases hwf with
    | node count operands =>
      rw [prefixWords]
      refine .node count (derivesAll_operandWords operands ?_)
      intro v hv
      apply hf
      rw [preorder]
      exact List.mem_cons_of_mem _ hv

theorem derivesAll_operandWords : ∀ {es : List Expr}, (∀ e ∈ es, e.WellFormed) →
    (∀ v, .const v ∈ preorderList es → v.isFinite = true) → DerivesAll es (operandWords es)
  | [], _, _ => by
    rw [operandWords]
    exact .nil
  | e :: es, hwf, hf => by
    rw [preorderList] at hf
    rw [operandWords]
    refine .cons (derives_prefixWords (hwf e List.mem_cons_self) ?_)
      (derivesAll_operandWords (fun e' he => hwf e' (List.mem_cons_of_mem _ he)) ?_)
    · exact fun v hv => hf v (List.mem_append_left _ hv)
    · exact fun v hv => hf v (List.mem_append_right _ hv)

end

mutual

theorem format_mem_prefixWords {v : Binary64} : ∀ {e : Expr}, .const v ∈ e.preorder →
    v.format ∈ e.prefixWords
  | .const w, h => by
    rw [preorder] at h
    rw [prefixWords]
    cases List.mem_singleton.1 h
    exact List.mem_singleton_self _
  | .var i, h => by
    rw [preorder] at h
    cases List.mem_singleton.1 h
  | .node op es, h => by
    rw [preorder] at h
    rw [prefixWords]
    have hes := format_mem_operandWords ((List.mem_cons.1 h).resolve_left nofun)
    exact List.mem_cons_of_mem _ (List.mem_cons_of_mem _ (List.mem_append_left _ hes))

theorem format_mem_operandWords {v : Binary64} : ∀ {es : List Expr},
    .const v ∈ preorderList es → v.format ∈ operandWords es
  | [], h => by
    rw [preorderList] at h
    cases h
  | e :: es, h => by
    rw [preorderList] at h
    rw [operandWords]
    rcases List.mem_append.1 h with h | h
    · exact List.mem_append_left _ (format_mem_prefixWords h)
    · exact List.mem_append_right _ (format_mem_operandWords h)

end

end Expr

/-- The bracketed form is read back if and only if all constants are finite, and then as the
expression itself. -/
theorem parse_toPrefix {t : Expr} (h : t.WellFormed) :
    ((∃ e, parse t.toPrefix = .ok e) ↔ ∀ v, .const v ∈ t.preorder → v.isFinite = true) ∧
      ∀ e, parse t.toPrefix = .ok e → e = t := by
  simp only [parse_eq_ok_iff, Expr.words_toPrefix]
  -- the word of a constant that is not finite would stand in the derivation
  have hfinite : ∀ {e : Expr}, Derives e t.prefixWords →
      ∀ v, .const v ∈ t.preorder → v.isFinite = true := by
    intro e he v hv
    exact isFinite_of_isToken (he.isToken _ (Expr.format_mem_prefixWords hv))
  refine ⟨⟨fun ⟨e, he⟩ => hfinite he, fun hf => ⟨t, Expr.derives_prefixWords h hf⟩⟩, ?_⟩
  intro e he
  have ht := Expr.derives_prefixWords h (hfinite he)
  have heq : t.prefixWords ++ [] = t.prefixWords ++ [] := rfl
  exact (he.unique ht heq).1

/-- A negative zero and an operation without operands are read back. -/
theorem parse_toPrefix_negative_zero :
    let t : Expr := .node .add [.const (.finite true .zero), .node .arithmeticMean []]
    t.WellFormed ∧ parse t.toPrefix = .ok t := by
  intro t
  have hwf : t.WellFormed := by
    refine .node rfl ?_
    intro e he
    rcases List.mem_cons.1 he with rfl | he
    · exact .const _
    · rw [List.mem_singleton.1 he]
      exact .node rfl nofun
  obtain ⟨hiff, heq⟩ := parse_toPrefix hwf
  have hf : ∀ v, .const v ∈ t.preorder → v.isFinite = true := by
    intro v hv
    simp [t, Expr.preorder, Expr.preorderList] at hv
    rw [hv]
    rfl
  obtain ⟨e, he⟩ := hiff.2 hf
  exact ⟨hwf, he.trans (congrArg _ (heq e he))⟩

end PrefixCalc
