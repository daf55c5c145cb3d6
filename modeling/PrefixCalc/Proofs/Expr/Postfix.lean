import PrefixCalc.Proofs.Expr.RoundTrip
import PrefixCalc.Proofs.Expr.Value

/-! # The bracketless form on a stack machine

A stack machine reads the words of a bracketless form from left to right. A number or a name is
pushed; a symbol takes its operands from the top of the stack, as many as its arity says, or,
where the arity takes any number, as many as the operation in its place has. Whatever follows
and whatever the stack holds, the words of an expression leave what the machine makes of the
expression on top of the stack. -/

namespace PrefixCalc
set_option autoImplicit false

namespace Expr

mutual

/-- All subtrees in postorder: an operation behind its operands. -/
def postorder : Expr → List Expr
  | const v => [const v]
  | var i => [var i]
  | node op es => postorderList es ++ [node op es]

def postorderList : List Expr → List Expr
  | [] => []
  | e :: es => postorder e ++ postorderList es

end

def variadicCount? : Expr → Option Nat
  | node op es => if op.arity.isVariadic then some es.length else none
  | _ => none

/-- The operand counts of the variadic operations in postorder. -/
def variadicCounts (e : Expr) : List Nat := e.postorder.filterMap variadicCount?

def NoVariadic (e : Expr) : Prop :=
  ∀ op es, .node op es ∈ e.preorder → op.arity.isVariadic = false

end Expr

/-- What a stack machine makes of constants, variables and operators with their operands. -/
structure StackMachine (α : Type) where
  const : Binary64 → α
  var : Variable → α
  operate? : Operator → List α → Option α

namespace StackMachine
variable {α : Type}

/-- The operand counts of the variadic symbols to come, and the stack from its top down. -/
structure State (α : Type) where
  counts : List Nat
  stack : List α

/-- The number of operands that a symbol takes, and the counts for the symbols after it. -/
def operandCount? : Arity → List Nat → Option (Nat × List Nat)
  | .fixed k, counts => some (k, counts)
  | .variadic, k :: counts => some (k, counts)
  | .variadic, [] => none

/-- The entries at the top of the stack, the deepest first, are replaced by their result. A
stack with fewer entries is an underflow. -/
def reduce? (m : StackMachine α) (op : Operator) (k : Nat) (stack : List α) : Option (List α) :=
  if stack.length < k then none
  else (m.operate? op (stack.take k).reverse).map (· :: stack.drop k)

def step? (m : StackMachine α) (s : State α) (w : Text) : Option (State α) :=
  match Operator.ofSymbol? w with
  | some op =>
    match operandCount? op.arity s.counts with
    | some (k, counts) => (m.reduce? op k s.stack).map (⟨counts, ·⟩)
    | none => none
  | none =>
    match Variable.ofName? w with
    | some i => some ⟨s.counts, m.var i :: s.stack⟩
    | none => (Text.toBinary64? w).map fun v => ⟨s.counts, m.const v :: s.stack⟩

def run? (m : StackMachine α) : State α → List Text → Option (State α)
  | s, [] => some s
  | s, w :: ws => (m.step? s w).bind fun s => run? m s ws

mutual

/-- What the machine makes of an expression, along the tree. -/
def value? (m : StackMachine α) : Expr → Option α
  | .const v => some (m.const v)
  | .var i => some (m.var i)
  | .node op es => (valueList? m es).bind (m.operate? op)

def valueList? (m : StackMachine α) : List Expr → Option (List α)
  | [] => some []
  | e :: es => (value? m e).bind fun v => (valueList? m es).map (v :: ·)

end

/-- The machine that puts expressions together. -/
def ofTrees : StackMachine Expr := ⟨.const, .var, Expr.operation?⟩

/-- The machine that works on values at a point. -/
def ofValues (p : Point) : StackMachine Binary64 := ⟨id, p.get, Operator.rule?⟩

/-- The words of a bracketless form on an empty stack. -/
def onPostfix? (m : StackMachine α) (e : Expr) : Option (State α) :=
  m.run? ⟨e.variadicCounts, []⟩ (e.toPostfix.splitOn ' ')

end StackMachine

/-! ## Words -/

namespace Expr

mutual

def postfixWords : Expr → List Text
  | const v => [v.format]
  | var i => [i.name]
  | node op es => operandPostfixWords es ++ [op.symbol]

def operandPostfixWords : List Expr → List Text
  | [] => []
  | e :: es => postfixWords e ++ operandPostfixWords es

end

theorem space_not_mem {w : Text} (h : ∀ c ∈ w, Text.isWord c = true) : ' ' ∉ w := by
  intro hmem
  have := h ' ' hmem
  revert this
  decide

mutual

theorem splitOn_toPostfix : ∀ e : Expr, e.toPostfix.splitOn ' ' = e.postfixWords
  | const v => by
    rw [toPostfix, postfixWords]
    exact List.splitOn_eq_singleton (space_not_mem v.isWord_of_mem_format)
  | var i => by
    rw [toPostfix, postfixWords]
    exact List.splitOn_eq_singleton (space_not_mem (isWord_of_mem_name i))
  | node op es => by
    rw [toPostfix, postfixWords]
    exact splitOn_operandsPostfix es op

theorem splitOn_operandsPostfix : ∀ (es : List Expr) (op : Operator),
    (operandsPostfix es ++ op.symbol).splitOn ' ' = operandPostfixWords es ++ [op.symbol]
  | [], op => by
    rw [operandsPostfix_nil, operandPostfixWords]
    exact List.splitOn_eq_singleton (space_not_mem (isWord_of_mem_symbol op))
  | e :: es, op => by
    rw [operandsPostfix_cons, operandPostfixWords, List.append_assoc, List.cons_append,
      List.splitOn_append_cons_self, splitOn_toPostfix e, splitOn_operandsPostfix es op,
      List.append_assoc]

end

/-! ## Counts -/

def operandCounts (es : List Expr) : List Nat := (postorderList es).filterMap variadicCount?

theorem operandCounts_cons (e : Expr) (es : List Expr) :
    operandCounts (e :: es) = e.variadicCounts ++ operandCounts es := by
  rw [operandCounts, postorderList, List.filterMap_append]
  rfl

theorem variadicCounts_node (op : Operator) (es : List Expr) :
    (node op es).variadicCounts =
      operandCounts es ++ if op.arity.isVariadic then [es.length] else [] := by
  rw [variadicCounts, postorder, List.filterMap_append]
  cases h : op.arity.isVariadic <;> simp [variadicCount?, h, operandCounts]

theorem variadicCounts_const (v : Binary64) : (const v).variadicCounts = [] := by
  rw [variadicCounts, postorder]
  rfl

theorem variadicCounts_var (i : Variable) : (var i).variadicCounts = [] := by
  rw [variadicCounts, postorder]
  rfl

mutual

theorem postorder_perm_preorder : ∀ e : Expr, e.postorder.Perm e.preorder
  | const v => by
    rw [postorder, preorder]
  | var i => by
    rw [postorder, preorder]
  | node op es => by
    rw [postorder, preorder]
    have h := (postorderList_perm_preorderList es).append_right [node op es]
    exact h.trans (List.perm_append_singleton _ _)

theorem postorderList_perm_preorderList : ∀ es : List Expr,
    (postorderList es).Perm (preorderList es)
  | [] => by
    rw [postorderList, preorderList]
  | e :: es => by
    rw [postorderList, preorderList]
    exact (postorder_perm_preorder e).append (postorderList_perm_preorderList es)

end

theorem variadicCounts_eq_nil {e : Expr} (h : e.NoVariadic) : e.variadicCounts = [] := by
  apply List.filterMap_eq_nil_iff.2
  intro s hs
  cases s with
  | const v => rfl
  | var i => rfl
  | node op es =>
    have hop := h op es ((postorder_perm_preorder e).mem_iff.1 hs)
    simp [variadicCount?, hop]

end Expr

/-! ## One word -/

namespace StackMachine
variable {α : Type} (m : StackMachine α)

theorem step?_name (s : State α) (i : Variable) :
    m.step? s i.name = some ⟨s.counts, m.var i :: s.stack⟩ := by
  have hop : Operator.ofSymbol? i.name = none := by cases i <;> decide
  rw [step?, hop, Variable.ofName?_name]

theorem step?_format (s : State α) {v : Binary64} (hv : v.isFinite = true) :
    m.step? s v.format = some ⟨s.counts, m.const v :: s.stack⟩ := by
  have hb := Binary64.toBinary64?_format hv
  have hname := ofName?_of_startsConst (Binary64.startsConst_format hv)
  rw [step?, ofSymbol?_of_toBinary64? hb, hname, hb]
  rfl

theorem reduce?_reverse_append (op : Operator) (vs stack : List α) :
    m.reduce? op vs.length (vs.reverse ++ stack) = (m.operate? op vs).map (· :: stack) := by
  have hlen : ¬ (vs.reverse ++ stack).length < vs.length := by
    rw [List.length_append, List.length_reverse]
    omega
  rw [reduce?, if_neg hlen, List.take_left' List.length_reverse,
    List.drop_left' List.length_reverse, List.reverse_reverse]

/-- The counts of an operation hold the number of its operands when its symbol comes. -/
theorem operandCount?_eq_some {a : Arity} {k : Nat} (h : a.accepts k = true) (ks : List Nat) :
    operandCount? a ((if a.isVariadic then [k] else []) ++ ks) = some (k, ks) := by
  cases a with
  | fixed n => rw [eq_of_beq h]; rfl
  | variadic => rfl

theorem step?_symbol {op : Operator} {vs : List α} (h : op.arity.accepts vs.length = true)
    (ks : List Nat) (stack : List α) :
    m.step? ⟨(if op.arity.isVariadic then [vs.length] else []) ++ ks, vs.reverse ++ stack⟩
      op.symbol = (m.operate? op vs).map fun v => ⟨ks, v :: stack⟩ := by
  rw [step?, Operator.ofSymbol?_symbol]
  dsimp only
  rw [operandCount?_eq_some h]
  dsimp only
  rw [reduce?_reverse_append]
  cases m.operate? op vs <;> rfl

/-! ## All words -/

theorem length_of_valueList? {m : StackMachine α} : ∀ {es : List Expr} {vs : List α},
    m.valueList? es = some vs → vs.length = es.length
  | [], vs, h => by
    rw [valueList?] at h
    cases h
    rfl
  | e :: es, vs, h => by
    rw [valueList?] at h
    obtain ⟨v, _, h⟩ := Option.bind_eq_some_iff.1 h
    obtain ⟨ws, hws, rfl⟩ := Option.map_eq_some_iff.1 h
    rw [List.length_cons, List.length_cons, length_of_valueList? hws]

mutual

/-- Whatever counts, entries and words there are beside those of an expression, its words take
its counts away and leave its value on top. -/
theorem run?_postfixWords : ∀ {e : Expr}, e.WellFormed →
    (∀ v, .const v ∈ e.preorder → v.isFinite = true) →
    ∀ (ks : List Nat) (stack : List α) (ws : List Text),
      m.run? ⟨e.variadicCounts ++ ks, stack⟩ (e.postfixWords ++ ws) =
        (m.value? e).bind fun v => m.run? ⟨ks, v :: stack⟩ ws
  | .const v, _, hf, ks, stack, ws => by
    have hv := hf v (by rw [Expr.preorder]; exact List.mem_singleton_self _)
    rw [Expr.variadicCounts_const, Expr.postfixWords, value?, List.singleton_append, run?,
      step?_format m _ hv]
    rfl
  | .var i, _, _, ks, stack, ws => by
    rw [Expr.variadicCounts_var, Expr.postfixWords, value?, List.singleton_append, run?,
      step?_name]
    rfl
  | .node op es, hwf, hf, ks, stack, ws => by
    cases hwf with
    | node count operands =>
      have hes := run?_operandPostfixWords operands (fun v hv => hf v (by
        rw [Expr.preorder]
        exact List.mem_cons_of_mem _ hv))
        ((if op.arity.isVariadic then [es.length] else []) ++ ks) stack (op.symbol :: ws)
      rw [Expr.variadicCounts_node, Expr.postfixWords, value?, List.append_assoc,
        List.append_assoc, List.singleton_append, hes, Option.bind_assoc]
      apply Option.bind_congr
      intro vs hvs
      have hlen := length_of_valueList? hvs
      rw [← hlen] at count ⊢
      rw [run?, step?_symbol m count ks stack, Option.bind_map]
      rfl

theorem run?_operandPostfixWords : ∀ {es : List Expr}, (∀ e ∈ es, e.WellFormed) →
    (∀ v, .const v ∈ Expr.preorderList es → v.isFinite = true) →
    ∀ (ks : List Nat) (stack : List α) (ws : List Text),
      m.run? ⟨Expr.operandCounts es ++ ks, stack⟩ (Expr.operandPostfixWords es ++ ws) =
        (m.valueList? es).bind fun vs => m.run? ⟨ks, vs.reverse ++ stack⟩ ws
  | [], _, _, ks, stack, ws => by
    rw [Expr.operandPostfixWords, valueList?]
    rfl
  | e :: es, hwf, hf, ks, stack, ws => by
    rw [Expr.preorderList] at hf
    have he := run?_postfixWords (hwf e List.mem_cons_self)
      (fun v hv => hf v (List.mem_append_left _ hv)) (Expr.operandCounts es ++ ks) stack
      (Expr.operandPostfixWords es ++ ws)
    rw [Expr.operandCounts_cons, Expr.operandPostfixWords, valueList?, List.append_assoc,
      List.append_assoc, he, Option.bind_assoc]
    apply Option.bind_congr
    intro v _
    have hes := run?_operandPostfixWords (fun e' he => hwf e' (List.mem_cons_of_mem _ he))
      (fun v hv => hf v (List.mem_append_right _ hv)) ks (v :: stack) ws
    rw [hes, Option.bind_map]
    apply Option.bind_congr
    intro vs _
    simp

end

theorem onPostfix?_eq {e : Expr} (h : e.WellFormed)
    (hf : ∀ v, .const v ∈ e.preorder → v.isFinite = true) :
    m.onPostfix? e = (m.value? e).map fun v => ⟨[], [v]⟩ := by
  have hrun := run?_postfixWords m h hf [] [] []
  rw [List.append_nil, List.append_nil] at hrun
  rw [onPostfix?, Expr.splitOn_toPostfix, hrun]
  cases m.value? e <;> rfl

/-! ## Trees and values -/

mutual

theorem value?_ofTrees : ∀ {e : Expr}, e.WellFormed → ofTrees.value? e = some e
  | .const v, _ => by
    rw [value?]
    rfl
  | .var i, _ => by
    rw [value?]
    rfl
  | .node op es, h => by
    cases h with
    | node count operands =>
      rw [value?, valueList?_ofTrees operands]
      exact Expr.operation?_eq_some_iff.2 ⟨count, rfl⟩

theorem valueList?_ofTrees : ∀ {es : List Expr}, (∀ e ∈ es, e.WellFormed) →
    ofTrees.valueList? es = some es
  | [], _ => by
    rw [valueList?]
  | e :: es, h => by
    have hes := valueList?_ofTrees fun e' he => h e' (List.mem_cons_of_mem _ he)
    rw [valueList?, value?_ofTrees (h e List.mem_cons_self), hes]
    rfl

end

mutual

theorem value?_ofValues (p : Point) : ∀ e : Expr, (ofValues p).value? e = e.eval? p
  | .const v => by
    rw [value?, Expr.eval?]
    rfl
  | .var i => by
    rw [value?, Expr.eval?]
    rfl
  | .node op es => by
    rw [value?, Expr.eval?, valueList?_ofValues p es]
    rfl

theorem valueList?_ofValues (p : Point) : ∀ es : List Expr,
    (ofValues p).valueList? es = Expr.evalList? p es
  | [] => by
    rw [valueList?, Expr.evalList?]
  | e :: es => by
    rw [valueList?, Expr.evalList?, value?_ofValues p e, valueList?_ofValues p es]

end

end StackMachine

theorem eq_of_toPostfix_eq {t u : Expr} (ht : t.WellFormed) (hu : u.WellFormed)
    (hft : ∀ v, .const v ∈ t.preorder → v.isFinite = true)
    (hfu : ∀ v, .const v ∈ u.preorder → v.isFinite = true)
    (hcounts : t.variadicCounts = u.variadicCounts) (heq : t.toPostfix = u.toPostfix) :
    t = u := by
  have hrun : StackMachine.ofTrees.onPostfix? t = StackMachine.ofTrees.onPostfix? u := by
    rw [StackMachine.onPostfix?, hcounts, heq]
    rfl
  rw [StackMachine.onPostfix?_eq _ ht hft, StackMachine.value?_ofTrees ht,
    StackMachine.onPostfix?_eq _ hu hfu, StackMachine.value?_ofTrees hu] at hrun
  cases hrun
  rfl

/-- The words of the bracketless form leave the expression itself on the stack that puts trees
together, and its value at each point on the stack that works on values; there is a value if the
operands of each operation can be counted by a finite double. Without variadic operators the
bracketless form determines the expression. -/
theorem postfix_runs_to_expr {t : Expr} (h : t.WellFormed)
    (hf : ∀ v, .const v ∈ t.preorder → v.isFinite = true) :
    StackMachine.ofTrees.onPostfix? t = some ⟨[], [t]⟩ ∧
      (∀ p, (StackMachine.ofValues p).onPostfix? t = (t.eval? p).map fun v => ⟨[], [v]⟩) ∧
      ((∀ op es, .node op es ∈ t.preorder → (Binary64.ofNat es.length).isFinite = true) →
        ∀ p, (StackMachine.ofValues p).onPostfix? t = some ⟨[], [t.eval p]⟩) ∧
      ∀ u : Expr, u.WellFormed → (∀ v, .const v ∈ u.preorder → v.isFinite = true) →
        t.NoVariadic → u.NoVariadic → t.toPostfix = u.toPostfix → t = u := by
  have hvalues : ∀ p, (StackMachine.ofValues p).onPostfix? t =
      (t.eval? p).map fun v => ⟨[], [v]⟩ := by
    intro p
    rw [StackMachine.onPostfix?_eq _ h hf, StackMachine.value?_ofValues]
  refine ⟨?_, hvalues, ?_, ?_⟩
  · rw [StackMachine.onPostfix?_eq _ h hf, StackMachine.value?_ofTrees h]
    rfl
  · intro hn p
    rw [hvalues p, Expr.eval?_eq_some_eval h hn p]
    rfl
  · intro u hu hfu ht' hu' heq
    have hcounts := (Expr.variadicCounts_eq_nil ht').trans (Expr.variadicCounts_eq_nil hu').symm
    exact eq_of_toPostfix_eq h hu hf hfu hcounts heq

/-- A negative zero is told from a difference, and an operation without operands takes none. -/
theorem postfix_runs_to_negative_zero :
    let s : Expr := .node .subtract [.const (.finite true .zero), .var .x]
    let t : Expr := .node .add [s, .node .arithmeticMean []]
    t.toPostfix = "-0 x - arith-mean +".toList ∧
      StackMachine.ofTrees.onPostfix? t = some ⟨[], [t]⟩ ∧
      (∀ p, (StackMachine.ofValues p).onPostfix? t = some ⟨[], [t.eval p]⟩) ∧
      ∀ u : Expr, u.WellFormed → (∀ v, .const v ∈ u.preorder → v.isFinite = true) →
        u.NoVariadic → u.toPostfix = "-0 x -".toList → u = s := by
  intro s t
  have hs : s.WellFormed := by
    refine .node rfl ?_
    intro e he
    rcases List.mem_cons.1 he with rfl | he
    · exact .const _
    · rw [List.mem_singleton.1 he]
      exact .var _
  have ht : t.WellFormed := by
    refine .node rfl ?_
    intro e he
    rcases List.mem_cons.1 he with rfl | he
    · exact hs
    · rw [List.mem_singleton.1 he]
      exact .node rfl nofun
  have hfs : ∀ v, .const v ∈ s.preorder → v.isFinite = true := by
    intro v hv
    simp [s, Expr.preorder, Expr.preorderList] at hv
    rw [hv]
    rfl
  have hft : ∀ v, .const v ∈ t.preorder → v.isFinite = true := by
    intro v hv
    simp [t, s, Expr.preorder, Expr.preorderList] at hv
    rw [hv]
    rfl
  have htext : s.toPostfix = "-0 x -".toList := by
    have hzero : (Binary64.finite true .zero).format = "-0".toList := by decide +kernel
    simp only [s, Expr.toPostfix, Expr.operandsPostfix, hzero]
    decide
  obtain ⟨htree, _, hvalues, _⟩ := postfix_runs_to_expr ht hft
  obtain ⟨_, _, _, hunique⟩ := postfix_runs_to_expr hs hfs
  refine ⟨?_, htree, hvalues ?_, ?_⟩
  · simp only [t, Expr.toPostfix, Expr.operandsPostfix, htext]
    decide
  · intro op es h
    apply Binary64.isFinite_ofNat
    have htwo : 2 < twoPow 1023 := twoPow_lt_twoPow (j := 1) (by decide)
    simp [t, s, Expr.preorder, Expr.preorderList] at h
    rcases h with ⟨_, rfl⟩ | ⟨_, rfl⟩ | ⟨_, rfl⟩
    · exact htwo
    · exact htwo
    · exact Nat.lt_trans Nat.two_pos htwo
  · intro u hu hfu hu' heq
    refine (hunique u hu hfu ?_ hu' ?_).symm
    · intro op es h
      simp [s, Expr.preorder, Expr.preorderList] at h
      rw [h.1]
      rfl
    · rw [heq, htext]

end PrefixCalc
