import PrefixCalc.Proofs.Expr.RoundTrip
import PrefixCalc.Proofs.Expr.Value
import PrefixCalc.Proofs.Lexeme.Replace

/-! # Numbers for variables

Each lexeme of a text that is the name of a variable is replaced by the number that a point has
for the variable. If the numbers are finite, an expression that the text writes becomes the
expression with constants in place of its variables, which has at every point the value that the
first one has at the given point. -/

namespace PrefixCalc
set_option autoImplicit false

/-- The number for the name of a variable; any other word stays. -/
def Point.replace (p : Point) (w : Text) : Text :=
  match Variable.ofName? w with
  | some i => (p.get i).format
  | none => w

def Text.substitute (p : Point) (t : Text) : Text := t.mapLexemes p.replace

namespace Expr

mutual

def substitute (p : Point) : Expr → Expr
  | const v => const v
  | var i => const (p.get i)
  | node op es => node op (substituteList p es)

def substituteList (p : Point) : List Expr → List Expr
  | [] => []
  | e :: es => substitute p e :: substituteList p es

end

@[simp] theorem length_substituteList (p : Point) (es : List Expr) :
    (substituteList p es).length = es.length := by
  induction es with
  | nil => rw [substituteList]
  | cons e es ih => rw [substituteList, List.length_cons, List.length_cons, ih]

mutual

theorem eval?_substitute (p q : Point) : ∀ e : Expr, (e.substitute p).eval? q = e.eval? p
  | const v => by
    rw [substitute, eval?, eval?]
  | var i => by
    rw [substitute, eval?, eval?]
  | node op es => by
    rw [substitute, eval?, eval?, evalList?_substituteList p q es]

theorem evalList?_substituteList (p q : Point) : ∀ es : List Expr,
    evalList? q (substituteList p es) = evalList? p es
  | [] => by
    rw [substituteList, evalList?_nil, evalList?_nil]
  | e :: es => by
    rw [substituteList, evalList?, evalList?, eval?_substitute p q e,
      evalList?_substituteList p q es]

end

end Expr

/-! ## Words -/

namespace Point
variable {p : Point}

theorem replace_name (p : Point) (i : Variable) : p.replace i.name = (p.get i).format := by
  rw [replace, Variable.ofName?_name]

theorem replace_of_startsConst {w : Text} (h : Text.startsConst w = true) : p.replace w = w := by
  rw [replace, ofName?_of_startsConst h]

theorem replace_symbol (op : Operator) : p.replace op.symbol = op.symbol := by
  have h : Variable.ofName? op.symbol = none := by
    cases op <;> decide
  rw [replace, h]

theorem replace_bracket {c : Char} (h : Text.isBracket c = true) : p.replace [c] = [c] := by
  have hn : Variable.ofName? [c] = none := by
    rcases Bool.or_eq_true_iff.mp h with h | h
    all_goals
      rw [eq_of_beq h]
      decide
  rw [replace, hn]

theorem keepsKind_replace (p : Point) : Text.KeepsKind p.replace where
  bracket _ hb := replace_bracket hb
  nonempty := by
    intro w hne _
    unfold replace
    split
    · exact Binary64.format_ne_nil _
    · exact hne
  chars := by
    intro w _ hw
    unfold replace
    split
    · exact Binary64.isWord_of_mem_format _
    · exact hw

end Point

mutual

/-- Variables stand for operands only, and a finite number can stand there too. -/
theorem Derives.substitute {p : Point} (hp : ∀ i, (p.get i).isFinite = true) :
    ∀ {e : Expr} {ts : List Text}, Derives e ts → Derives (e.substitute p) (ts.map p.replace)
  | _, _, .var i => by
    rw [Expr.substitute, List.map_singleton, Point.replace_name]
    exact derives_format (hp i)
  | _, _, .const start number value => by
    rw [Expr.substitute, List.map_singleton, Point.replace_of_startsConst start]
    exact .const start number value
  | _, _, .node count operands => by
    rw [← Expr.length_substituteList p] at count
    have hnode := Derives.node count (operands.substitute hp)
    rw [Expr.substitute]
    simp only [List.map_cons, List.map_append, List.map_nil, Point.replace_symbol]
    rwa [Point.replace_bracket (by decide), Point.replace_bracket (by decide)]

theorem DerivesAll.substitute {p : Point} (hp : ∀ i, (p.get i).isFinite = true) :
    ∀ {es : List Expr} {ts : List Text}, DerivesAll es ts →
      DerivesAll (Expr.substituteList p es) (ts.map p.replace)
  | _, _, .nil => by
    rw [Expr.substituteList]
    exact .nil
  | _, _, .cons head tail => by
    rw [Expr.substituteList, List.map_append]
    exact .cons (head.substitute hp) (tail.substitute hp)

end

/-- A text with finite numbers in place of its variables is parsed to the expression with these
constants, and its value at any point is the value of the first expression at the numbers. -/
theorem parse_substitute {t : Text} {e : Expr} {p : Point} (h : parse t = .ok e)
    (hp : ∀ i, (p.get i).isFinite = true) :
    parse (t.substitute p) = .ok (e.substitute p) ∧
      (∀ q, (e.substitute p).eval? q = e.eval? p) ∧
      ((∀ op es, .node op es ∈ e.preorder → (Binary64.ofNat es.length).isFinite = true) →
        ∀ q, (e.substitute p).eval? q = some (e.eval p)) := by
  have hderives := parse_eq_ok_iff.mp h
  refine ⟨?_, fun q => Expr.eval?_substitute p q e, ?_⟩
  · rw [parse_eq_ok_iff, Text.substitute, Text.words_mapLexemes t p.keepsKind_replace]
    exact hderives.substitute hp
  · intro hn q
    rw [Expr.eval?_substitute, Expr.eval?_eq_some_eval hderives.wellFormed hn]

/-- A negative zero and a two stand next to a bracket and a tab; the symbol of a difference is
no variable. -/
theorem parse_substitute_beside_bracket :
    let t : Text := "(- x(negate\ty))".toList
    let p : Point := ⟨.finite true .zero, .ofNat 2, .zero⟩
    let e : Expr := .node .subtract [.var .x, .node .negate [.var .y]]
    let e' : Expr := .node .subtract [.const p.x, .node .negate [.const p.y]]
    parse t = .ok e ∧ (∀ i, (p.get i).isFinite = true) ∧
      parse "(- -0(negate\t2))".toList = .ok e' ∧ ∀ q, e'.eval? q = e.eval? p := by
  intro t p e e'
  have h : parse t = .ok e := by
    have hwords : t.words =
        [['('], ['-'], ['x'], ['('], "negate".toList, ['y'], [')'], [')']] := by
      decide +kernel
    have hnegate : Derives (.node .negate [.var .y]) _ := .node rfl (.cons (.var .y) .nil)
    rw [parse_eq_ok_iff, hwords]
    exact .node rfl (.cons (.var .x) (.cons hnegate .nil))
  have hp : ∀ i, (p.get i).isFinite = true := by
    have htwo : 2 < twoPow 1023 := twoPow_lt_twoPow (j := 1) (by decide)
    intro i
    cases i with
    | x => rfl
    | y =>
      simp only [p, Point.get]
      exact Binary64.isFinite_ofNat htwo
    | z => rfl
  have htext : t.substitute p = "(- -0(negate\t2))".toList := by
    decide +kernel
  obtain ⟨hparse, heval, _⟩ := parse_substitute h hp
  have he : e.substitute p = e' := by
    simp only [e, e', Expr.substitute, Expr.substituteList]
    rfl
  rw [htext, he] at hparse
  rw [he] at heval
  exact ⟨h, hp, hparse, heval⟩

end PrefixCalc
