import Mathlib.Data.List.Basic
import PrefixCalc.Proofs.Number.Root
import PrefixCalc.Suite.Run

/-! # Expressions have values

The rule of an operator has a value on every list of operands that its arity accepts, as long
as the number of operands is a finite double. -/

namespace PrefixCalc
set_option autoImplicit false

namespace Binary64

theorem isNegative_one : one.isNegative = false := by
  rw [one, ofNat]
  exact isNegative_ofRatio _ _ _

theorem isNegative_absProduct (vs : List Binary64) : (absProduct vs).isNegative = false := by
  rw [absProduct]
  exact isNegative_foldl_mul_abs vs isNegative_one

theorem exists_rootExponent_eq {n : Nat} (hpos : 0 < n) (h : (ofNat n).isFinite = true) :
    ∃ e : Magnitude, rootExponent n = .finite false e ∧ 0 < e.units ∧ e.units ≤ oneUnits := by
  rw [rootExponent]
  exact exists_div_one_eq hpos h

theorem exists_pow?_absProduct_eq {vs : List Binary64} (hne : vs ≠ [])
    (h : (ofNat vs.length).isFinite = true) :
    ∃ v, pow? (absProduct vs) (rootExponent vs.length) = some v := by
  obtain ⟨e, he, hpos, hle⟩ := exists_rootExponent_eq (List.length_pos_iff.2 hne) h
  rw [he]
  exact exists_pow?_eq (isNegative_absProduct vs) hpos hle

theorem exists_geometricMean?_eq {vs : List Binary64} (h : (ofNat vs.length).isFinite = true) :
    ∃ v, geometricMean? vs = some v := by
  cases vs with
  | nil => exact ⟨nan, rfl⟩
  | cons v vs =>
    rw [geometricMean?, if_neg nofun]
    exact exists_pow?_absProduct_eq (List.cons_ne_nil v vs) h

/-- The divisor of an average is no zero. -/
theorem isZero_ofNat {n : Nat} (hpos : 0 < n) (h : (ofNat n).isFinite = true) :
    (ofNat n).isZero = false := by
  obtain ⟨m, hm, hle⟩ := exists_ofNat_eq hpos h
  rw [hm]
  exact beq_eq_false_iff_ne.2 (Nat.ne_of_gt (Nat.lt_of_lt_of_le oneUnits_pos hle))

theorem exists_quotient?_eq {a b : Binary64} (h : b.isZero = false) :
    ∃ v, quotient? a b = some v := by
  apply Option.ne_none_iff_exists'.1
  rw [Ne, quotient?_eq_none_iff, h]
  exact Bool.false_ne_true

end Binary64

theorem exists_of_length_eq_five {α : Type} : ∀ {vs : List α}, vs.length = 5 →
    ∃ a b c d e, vs = [a, b, c, d, e]
  | [a, b, c, d, e], _ => ⟨a, b, c, d, e, rfl⟩

theorem exists_rule?_eq {op : Operator} {vs : List Binary64}
    (count : op.arity.accepts vs.length = true)
    (h : (Binary64.ofNat vs.length).isFinite = true) : ∃ v, op.rule? vs = some v := by
  cases op with
  | geometricMean =>
    obtain ⟨v, hv⟩ := Binary64.exists_geometricMean?_eq h
    exact ⟨v, by rw [Operator.rule?]; exact hv⟩
  | arithmeticMean => exact ⟨_, rfl⟩
  | harmonicMean => exact ⟨_, rfl⟩
  | negate =>
    obtain ⟨a, rfl⟩ := List.length_eq_one_iff.1 (eq_of_beq count)
    exact ⟨_, rfl⟩
  | median =>
    obtain ⟨a, b, c, rfl⟩ := List.length_eq_three.1 (eq_of_beq count)
    exact ⟨_, rfl⟩
  | average =>
    obtain ⟨a, b, c, d, e, rfl⟩ := exists_of_length_eq_five (eq_of_beq count)
    exact Binary64.exists_quotient?_eq (Binary64.isZero_ofNat (Nat.succ_pos 4) h)
  | _ =>
    obtain ⟨a, b, rfl⟩ := List.length_eq_two.1 (eq_of_beq count)
    exact ⟨_, rfl⟩

namespace Expr

mutual

theorem exists_eval?_eq (p : Point) : ∀ {e : Expr}, e.WellFormed →
    (∀ op es, .node op es ∈ e.preorder → (Binary64.ofNat es.length).isFinite = true) →
    ∃ v, e.eval? p = some v
  | .const v, _, _ => by
    rw [eval?]
    exact ⟨v, rfl⟩
  | .var i, _, _ => by
    rw [eval?]
    exact ⟨p.get i, rfl⟩
  | .node op es, hwf, hn => by
    rw [preorder] at hn
    cases hwf with
    | node count operands =>
      obtain ⟨vs, hvs, hlen⟩ := exists_evalList?_eq p operands
        fun op es h => hn op es (List.mem_cons_of_mem _ h)
      have hes := hn op es List.mem_cons_self
      rw [eval?, hvs]
      rw [← hlen] at count hes
      exact exists_rule?_eq count hes

theorem exists_evalList?_eq (p : Point) : ∀ {es : List Expr}, (∀ e ∈ es, e.WellFormed) →
    (∀ op ds, .node op ds ∈ preorderList es → (Binary64.ofNat ds.length).isFinite = true) →
    ∃ vs, evalList? p es = some vs ∧ vs.length = es.length
  | [], _, _ => ⟨[], evalList?_nil p, rfl⟩
  | e :: es, hwf, hn => by
    rw [preorderList] at hn
    obtain ⟨v, hv⟩ := exists_eval?_eq p (hwf e List.mem_cons_self)
      fun op ds h => hn op ds (List.mem_append_left _ h)
    obtain ⟨vs, hvs, hlen⟩ := exists_evalList?_eq p
      (fun e' he => hwf e' (List.mem_cons_of_mem _ he))
      fun op ds h => hn op ds (List.mem_append_right _ h)
    refine ⟨v :: vs, ?_, ?_⟩
    · rw [evalList?, hv, hvs]
      rfl
    · rw [List.length_cons, List.length_cons, hlen]

end

theorem eval?_eq_some_eval {e : Expr} (h : e.WellFormed)
    (hn : ∀ op es, .node op es ∈ e.preorder → (Binary64.ofNat es.length).isFinite = true)
    (p : Point) : e.eval? p = some (e.eval p) := by
  obtain ⟨v, hv⟩ := exists_eval?_eq p h hn
  rw [eval, hv]
  rfl

/-! ## Every operation inside an expression -/

mutual

theorem mem_preorder_trans {d c : Expr} (hc : c ∈ d.preorder) :
    ∀ {e : Expr}, d ∈ e.preorder → c ∈ e.preorder
  | .const v, hd => by
    rw [preorder, List.mem_singleton] at hd
    exact hd ▸ hc
  | .var i, hd => by
    rw [preorder, List.mem_singleton] at hd
    exact hd ▸ hc
  | .node op es, hd => by
    rw [preorder, List.mem_cons] at hd
    rcases hd with rfl | hd
    · exact hc
    · rw [preorder]
      exact List.mem_cons_of_mem _ (mem_preorderList_trans hc hd)

theorem mem_preorderList_trans {d c : Expr} (hc : c ∈ d.preorder) :
    ∀ {es : List Expr}, d ∈ preorderList es → c ∈ preorderList es
  | [], hd => by
    rw [preorderList] at hd
    cases hd
  | e :: es, hd => by
    rw [preorderList] at hd ⊢
    rcases List.mem_append.1 hd with hd | hd
    · exact List.mem_append_left _ (mem_preorder_trans hc hd)
    · exact List.mem_append_right _ (mem_preorderList_trans hc hd)

end

mutual

theorem WellFormed.of_mem_preorder {d : Expr} :
    ∀ {e : Expr}, e.WellFormed → d ∈ e.preorder → d.WellFormed
  | .const v, h, hd => by
    rw [preorder, List.mem_singleton] at hd
    exact hd ▸ h
  | .var i, h, hd => by
    rw [preorder, List.mem_singleton] at hd
    exact hd ▸ h
  | .node op es, h, hd => by
    rw [preorder, List.mem_cons] at hd
    rcases hd with rfl | hd
    · exact h
    · cases h with
      | node count operands => exact wellFormed_of_mem_preorderList operands hd

theorem wellFormed_of_mem_preorderList {d : Expr} :
    ∀ {es : List Expr}, (∀ e ∈ es, e.WellFormed) → d ∈ preorderList es → d.WellFormed
  | [], _, hd => by
    rw [preorderList] at hd
    cases hd
  | e :: es, h, hd => by
    rw [preorderList] at hd
    rcases List.mem_append.1 hd with hd | hd
    · exact (h e List.mem_cons_self).of_mem_preorder hd
    · exact wellFormed_of_mem_preorderList (fun e' he => h e' (List.mem_cons_of_mem _ he)) hd

end

/-- At the point the operands have values, as many as the arity accepts, and the rule has a value
on them. A root is taken of a base that is not negative, and its exponent is above zero and at
most one. -/
def RuleApplies (p : Point) (op : Operator) (es : List Expr) : Prop :=
  ∃ vs v, evalList? p es = some vs ∧ op.arity.accepts vs.length = true ∧ op.rule? vs = some v ∧
    (op = .geometricMean → vs ≠ [] → (Binary64.absProduct vs).isNegative = false ∧
      (∃ e : Magnitude, Binary64.rootExponent vs.length = .finite false e ∧
        0 < e.units ∧ e.units ≤ oneUnits) ∧
      Binary64.pow? (Binary64.absProduct vs) (Binary64.rootExponent vs.length) = some v)

theorem WellFormed.ruleApplies {op : Operator} {es : List Expr} (h : (Expr.node op es).WellFormed)
    (hn : ∀ op' ds, .node op' ds ∈ (Expr.node op es).preorder →
      (Binary64.ofNat ds.length).isFinite = true) (p : Point) : RuleApplies p op es := by
  rw [preorder] at hn
  cases h with
  | node count operands =>
    obtain ⟨vs, hvs, hlen⟩ := exists_evalList?_eq p operands
      fun op' ds hd => hn op' ds (List.mem_cons_of_mem _ hd)
    have hcount := hn op es List.mem_cons_self
    rw [← hlen] at count hcount
    obtain ⟨v, hv⟩ := exists_rule?_eq count hcount
    refine ⟨vs, v, hvs, count, hv, ?_⟩
    intro hop hne
    have hexponent := Binary64.exists_rootExponent_eq (List.length_pos_iff.2 hne) hcount
    rw [hop, Operator.rule?, Binary64.geometricMean?, if_neg (by simpa using hne)] at hv
    exact ⟨Binary64.isNegative_absProduct vs, hexponent, hv⟩

end Expr
end PrefixCalc
