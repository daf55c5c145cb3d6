import PrefixCalc.Expr.Stack
import PrefixCalc.Proofs.Expr.Value
import PrefixCalc.Proofs.Outcome
import PrefixCalc.Proofs.Parse.Recognition

/-! # Expressions that can be built

Parsing gives well-formed expressions, and constructions on a stack of well-formed expressions
leave it so: what they can build from nothing is just what is well-formed. To evaluate such an
expression cannot fail. Each rule gets as many values as its arity accepts, no division by zero
is left without a value, and roots are taken of bases that are not negative. -/

namespace PrefixCalc
set_option autoImplicit false

namespace Expr

theorem wellFormed_of_ofName {name : Text} {e : Expr} (h : ofName name = .ok e) :
    e.WellFormed := by
  unfold ofName at h
  split at h
  · cases h
    exact .var _
  · cases h

theorem wellFormed_of_ofSymbol {symbol : Text} {es : List Expr} {e : Expr}
    (hes : ∀ d ∈ es, d.WellFormed) (h : ofSymbol symbol es = .ok e) : e.WellFormed := by
  unfold ofSymbol at h
  split at h
  · cases h
  · split at h
    · rename_i hop
      cases h
      obtain ⟨count, rfl⟩ := operation?_eq_some_iff.1 hop
      exact .node count hes
    · cases h

theorem ofSymbol_symbol {op : Operator} {es : List Expr}
    (count : op.arity.accepts es.length = true) : ofSymbol op.symbol es = .ok (.node op es) := by
  simp only [ofSymbol, Operator.ofSymbol?_symbol, operation?_eq_some_iff.2 ⟨count, rfl⟩]

namespace Step

/-- One construction keeps the stack well-formed. -/
theorem wellFormed_run {step : Step} {stack stack' : List Expr} (hs : ∀ e ∈ stack, e.WellFormed)
    (h : step.run stack = .ok stack') : ∀ e ∈ stack', e.WellFormed := by
  cases step with
  | const v =>
    cases h
    exact List.forall_mem_cons.2 ⟨.const v, hs⟩
  | var name =>
    obtain ⟨e, he, rfl⟩ := map_eq_ok_iff.1 h
    exact List.forall_mem_cons.2 ⟨wellFormed_of_ofName he, hs⟩
  | apply symbol n =>
    obtain ⟨e, he, rfl⟩ := map_eq_ok_iff.1 h
    refine List.forall_mem_cons.2 ⟨wellFormed_of_ofSymbol ?_ he, ?_⟩
    · intro d hd
      exact hs d (List.mem_of_mem_take (List.mem_reverse.1 hd))
    · intro d hd
      exact hs d (List.mem_of_mem_drop hd)
  | dup =>
    cases h
    cases stack with
    | nil => exact hs
    | cons e r => exact List.forall_mem_cons.2 ⟨hs e List.mem_cons_self, hs⟩
  | swap =>
    cases h
    match stack with
    | [] | [_] => exact hs
    | d :: e :: r =>
      intro c hc
      apply hs c
      simp only [List.mem_cons] at hc ⊢
      tauto
  | drop =>
    cases h
    intro d hd
    exact hs d (List.mem_of_mem_drop hd)

theorem wellFormed_runAll {steps : List Step} {stack : List Expr}
    (hs : ∀ e ∈ stack, e.WellFormed) : ∀ e ∈ runAll stack steps, e.WellFormed := by
  induction steps generalizing stack with
  | nil => exact hs
  | cons step steps ih =>
    rw [runAll, List.foldl_cons]
    cases hrun : step.run stack with
    | ok stack' => exact ih (wellFormed_run hs hrun)
    | error err => exact ih hs

theorem runAll_append (stack : List Expr) (steps steps' : List Step) :
    runAll stack (steps ++ steps') = runAll (runAll stack steps) steps' :=
  List.foldl_append

end Step

mutual

theorem exists_runAll_eq : ∀ {e : Expr}, e.WellFormed → ∀ stack : List Expr,
    ∃ steps, Step.runAll stack steps = e :: stack
  | .const v, _, stack => ⟨[.const v], rfl⟩
  | .var i, _, stack => by
    refine ⟨[.var i.name], ?_⟩
    simp [Step.runAll, Step.run, ofName, Variable.ofName?_name, Except.map]
  | .node op es, h, stack => by
    cases h with
    | node count operands =>
      obtain ⟨steps, hsteps⟩ := exists_runAll_eq_append operands stack
      refine ⟨steps ++ [.apply op.symbol es.length], ?_⟩
      rw [Step.runAll_append, hsteps]
      simp [Step.runAll, Step.run, ofSymbol_symbol count, Except.map]

theorem exists_runAll_eq_append : ∀ {es : List Expr}, (∀ e ∈ es, e.WellFormed) →
    ∀ stack : List Expr, ∃ steps, Step.runAll stack steps = es.reverse ++ stack
  | [], _, stack => ⟨[], rfl⟩
  | e :: es, h, stack => by
    obtain ⟨steps, hsteps⟩ := exists_runAll_eq (h e List.mem_cons_self) stack
    obtain ⟨steps', hsteps'⟩ :=
      exists_runAll_eq_append (fun d hd => h d (List.mem_cons_of_mem _ hd)) (e :: stack)
    refine ⟨steps ++ steps', ?_⟩
    rw [Step.runAll_append, hsteps, hsteps', List.reverse_cons, List.append_assoc]
    rfl

end

/-- What constructions can build is just what is well-formed. -/
theorem wellFormed_iff_exists_runAll {e : Expr} :
    e.WellFormed ↔ ∃ steps, e ∈ Step.runAll [] steps := by
  constructor
  · intro h
    obtain ⟨steps, hsteps⟩ := exists_runAll_eq h []
    refine ⟨steps, ?_⟩
    rw [hsteps]
    exact List.mem_cons_self
  · rintro ⟨steps, he⟩
    refine Step.wellFormed_runAll ?_ e he
    intro d hd
    cases hd

end Expr

/-! ## Operands of a parsed expression -/

theorem DerivesAll.length_le {es : List Expr} {ts : List Text} (h : DerivesAll es ts) :
    es.length ≤ ts.length := by
  match h with
  | .nil => exact Nat.le_refl 0
  | .cons head tail =>
    obtain ⟨w, ws, rfl, _⟩ := head.exists_head
    have := tail.length_le
    simp only [List.length_cons, List.length_append]
    omega

mutual

theorem Derives.length_operands_lt {op : Operator} {es : List Expr} :
    ∀ {e : Expr} {ts : List Text}, Derives e ts → .node op es ∈ e.preorder →
      es.length < ts.length
  | _, _, .var i, hmem => by
    rw [Expr.preorder, List.mem_singleton] at hmem
    cases hmem
  | _, _, .const _ _ _, hmem => by
    rw [Expr.preorder, List.mem_singleton] at hmem
    cases hmem
  | _, _, .node _ operands, hmem => by
    rw [Expr.preorder, List.mem_cons] at hmem
    simp only [List.length_cons, List.length_append, List.length_nil]
    rcases hmem with heq | hmem
    · have := operands.length_le
      cases heq
      omega
    · have := operands.length_operands_lt hmem
      omega

theorem DerivesAll.length_operands_lt {op : Operator} {es : List Expr} :
    ∀ {ds : List Expr} {ts : List Text}, DerivesAll ds ts → .node op es ∈ Expr.preorderList ds →
      es.length < ts.length
  | _, _, .nil, hmem => by
    rw [Expr.preorderList] at hmem
    cases hmem
  | _, _, .cons head tail, hmem => by
    rw [Expr.preorderList] at hmem
    rw [List.length_append]
    rcases List.mem_append.1 hmem with hmem | hmem
    · have := head.length_operands_lt hmem
      omega
    · have := tail.length_operands_lt hmem
      omega

end

/-- An operation of a parsed expression has fewer operands than the text has characters. -/
theorem length_operands_lt_of_parse {t : Text} {e : Expr} {op : Operator} {es : List Expr}
    (h : parse t = .ok e) (hmem : .node op es ∈ e.preorder) : es.length < t.length :=
  Nat.lt_of_lt_of_le ((parse_eq_ok_iff.1 h).length_operands_lt hmem) t.length_words_le

/-- Every operation in an expression that was parsed, or was built from parsed expressions, has
an operator of the catalogue and as many operands as its arity accepts, and a variable stands for
the coordinate at the place of its name. So the expression has a value at every point, and every
rule in it applies; a zero as a divisor gives a value, too. The operands of an operation are to be
counted by a finite double, which all lists of fewer than 2 ^ 1023 operands are. -/
theorem evaluation_never_fails {stack : List Expr} {steps : List Expr.Step} {e : Expr}
    (parsed : ∀ d ∈ stack, ∃ t, parse t = .ok d) (he : e ∈ Expr.Step.runAll stack steps) :
    (∀ op es, .node op es ∈ e.preorder →
      Operator.ofSymbol? op.symbol = some op ∧ op.arity.accepts es.length = true) ∧
    (∀ i, .var i ∈ e.preorder → (Variable.all.map Variable.name)[i.index]? = some i.name ∧
      ∀ p : Point, p.toList[i.index]? = (Expr.var i).eval? p) ∧
    (∀ a b : Binary64, b.isZero = true → a.quotient? b = none ∧
      a.div b = if a.isZero || a.isNaN then .nan else .inf (a.isNegative != b.isNegative)) ∧
    ((∀ op es, .node op es ∈ e.preorder → (Binary64.ofNat es.length).isFinite = true) →
      ∀ p : Point, (∃ v, e.eval? p = some v) ∧
        ∀ op es, .node op es ∈ e.preorder → Expr.RuleApplies p op es) ∧
    ∀ t, parse t = .ok e → ∀ op es, .node op es ∈ e.preorder → es.length < t.length := by
  have hwf : e.WellFormed := by
    refine Expr.Step.wellFormed_runAll ?_ e he
    intro d hd
    obtain ⟨t, ht⟩ := parsed d hd
    exact (parse_eq_ok_iff.1 ht).wellFormed
  refine ⟨?_, ?_, ?_, ?_, ?_⟩
  · intro op es hmem
    cases hwf.of_mem_preorder hmem with
    | node count _ => exact ⟨Operator.ofSymbol?_symbol op, count⟩
  · intro i _
    refine ⟨by cases i <;> rfl, ?_⟩
    intro p
    rw [Expr.eval?]
    cases i <;> rfl
  · intro a b hb
    exact ⟨Binary64.quotient?_eq_none_iff.2 hb, Binary64.div_of_isZero hb⟩
  · intro hn p
    refine ⟨Expr.exists_eval?_eq p hwf hn, ?_⟩
    intro op es hmem
    refine (hwf.of_mem_preorder hmem).ruleApplies ?_ p
    intro op' ds hd
    exact hn op' ds (Expr.mem_preorder_trans hd hmem)
  · intro t ht op es hmem
    exact length_operands_lt_of_parse ht hmem

/-- The root of a parsed quotient, which may be by zero, and of a mean of nothing. -/
theorem root_of_quotient_evaluates :
    let d : Expr := .node .divide [.var .x, .var .y]
    let es : List Expr := [d, .node .harmonicMean []]
    parse "(/ x y)".toList = .ok d ∧
      .node .geometricMean es ∈
        Expr.Step.runAll [d] [.apply "harm-mean".toList 0, .apply "geom-mean".toList 2] ∧
      ∀ p : Point, (∃ v, (Expr.node .geometricMean es).eval? p = some v) ∧
        Expr.RuleApplies p .geometricMean es := by
  intro d es
  have hparse : parse "(/ x y)".toList = .ok d := by
    have hwords : Text.words "(/ x y)".toList = [['('], ['/'], ['x'], ['y'], [')']] := by
      decide +kernel
    rw [parse_eq_ok_iff, hwords]
    exact .node rfl (.cons (.var .x) (.cons (.var .y) .nil))
  have hparsed : ∀ c ∈ [d], ∃ t, parse t = .ok c := by
    intro c hc
    rw [List.mem_singleton.1 hc]
    exact ⟨_, hparse⟩
  have hmem : .node .geometricMean es ∈
      Expr.Step.runAll [d] [.apply "harm-mean".toList 0, .apply "geom-mean".toList 2] :=
    List.mem_cons_self
  obtain ⟨_, _, _, heval, _⟩ := evaluation_never_fails hparsed hmem
  have htwo : 2 < twoPow 1023 := twoPow_lt_twoPow (j := 1) (by decide)
  have hcounts : ∀ op ds, .node op ds ∈ (Expr.node .geometricMean es).preorder →
      (Binary64.ofNat ds.length).isFinite = true := by
    intro op ds hd
    apply Binary64.isFinite_ofNat
    simp [es, d, Expr.preorder, Expr.preorderList] at hd
    rcases hd with ⟨_, rfl⟩ | ⟨_, rfl⟩ | ⟨_, rfl⟩
    · exact htwo
    · exact htwo
    · exact Nat.lt_trans Nat.two_pos htwo
  refine ⟨hparse, hmem, ?_⟩
  intro p
  obtain ⟨hvalue, hrules⟩ := heval hcounts p
  exact ⟨hvalue, hrules _ _ (by rw [Expr.preorder]; exact List.mem_cons_self)⟩

end PrefixCalc
