import PrefixCalc.Proofs.Expr.Constant
import PrefixCalc.Proofs.Items
import PrefixCalc.Proofs.Lexeme.Replace

/-! # Equality of expressions and of their bracketed forms

The bracketed form determines its expression, that of an infinite constant too, which no parse
reads back: the words fall into operands in one way only. Two expressions are equal as trees of
numbers if and only if their bracketed forms are the same once the sign of every zero is left
out, which is what numbers do not see. -/

namespace PrefixCalc
set_option autoImplicit false

namespace Expr

/-! ## One expression for each bracketed form -/

theorem prefixWords_ne_closing (e : Expr) {r r' : List Text} :
    e.prefixWords ++ r ≠ [')'] :: r' := by
  intro heq
  cases e with
  | const v =>
    rw [prefixWords] at heq
    exact v.format_ne_bracket (by decide) (List.cons.inj heq).1
  | var i =>
    rw [prefixWords] at heq
    exact name_ne_closing i (List.cons.inj heq).1
  | node op es =>
    rw [prefixWords] at heq
    exact opening_ne_closing (List.cons.inj heq).1

theorem eq_of_format_cons {e : Expr} {v : Binary64} {r r' : List Text}
    (heq : v.format :: r = e.prefixWords ++ r') : e = const v ∧ r = r' := by
  cases e with
  | const w =>
    rw [prefixWords] at heq
    obtain ⟨hformat, hr⟩ := List.cons.inj heq
    exact ⟨congrArg const (Binary64.format_inj hformat).symm, hr⟩
  | var i =>
    rw [prefixWords] at heq
    exact absurd (List.cons.inj heq).1 (v.format_ne_name i)
  | node op es =>
    rw [prefixWords] at heq
    exact absurd (List.cons.inj heq).1 (v.format_ne_bracket (by decide))

theorem eq_of_name_cons {e : Expr} {i : Variable} {r r' : List Text}
    (heq : i.name :: r = e.prefixWords ++ r') : e = var i ∧ r = r' := by
  cases e with
  | const w =>
    rw [prefixWords] at heq
    exact absurd (List.cons.inj heq).1.symm (w.format_ne_name i)
  | var j =>
    rw [prefixWords] at heq
    obtain ⟨hname, hr⟩ := List.cons.inj heq
    exact ⟨congrArg var (name_injective hname).symm, hr⟩
  | node op es =>
    rw [prefixWords] at heq
    exact absurd (List.cons.inj heq).1 (name_ne_bracket i)

mutual

/-- The words of an expression end before just one of the words behind their start. -/
theorem prefixWords_append_inj : ∀ {e e' : Expr} {r r' : List Text},
    e.prefixWords ++ r = e'.prefixWords ++ r' → e = e' ∧ r = r'
  | const v, e', r, r', heq => by
    rw [prefixWords] at heq
    obtain ⟨he, hr⟩ := eq_of_format_cons heq
    exact ⟨he.symm, hr⟩
  | var i, e', r, r', heq => by
    rw [prefixWords] at heq
    obtain ⟨he, hr⟩ := eq_of_name_cons heq
    exact ⟨he.symm, hr⟩
  | node op es, const v, r, r', heq => by
    rw [prefixWords_const] at heq
    obtain ⟨he, hr⟩ := eq_of_format_cons heq.symm
    exact ⟨he, hr.symm⟩
  | node op es, var i, r, r', heq => by
    rw [prefixWords_var] at heq
    obtain ⟨he, hr⟩ := eq_of_name_cons heq.symm
    exact ⟨he, hr.symm⟩
  | node op es, node op' es', r, r', heq => by
    rw [prefixWords, prefixWords] at heq
    simp only [List.cons_append, List.append_assoc, List.nil_append, List.cons.injEq,
      true_and] at heq
    obtain ⟨hsymbol, heq⟩ := heq
    obtain ⟨hes, hr⟩ := operandWords_append_inj heq
    exact ⟨by rw [symbol_injective hsymbol, hes], hr⟩

theorem operandWords_append_inj : ∀ {es es' : List Expr} {r r' : List Text},
    operandWords es ++ [')'] :: r = operandWords es' ++ [')'] :: r' → es = es' ∧ r = r'
  | [], [], r, r', heq => by
    rw [operandWords] at heq
    exact ⟨rfl, (List.cons.inj heq).2⟩
  | [], e' :: es', r, r', heq => by
    rw [operandWords, operandWords, List.append_assoc] at heq
    exact absurd heq.symm e'.prefixWords_ne_closing
  | e :: es, [], r, r', heq => by
    rw [operandWords, operandWords, List.append_assoc] at heq
    exact absurd heq e.prefixWords_ne_closing
  | e :: es, e' :: es', r, r', heq => by
    rw [operandWords, operandWords, List.append_assoc, List.append_assoc] at heq
    obtain ⟨he, heq⟩ := prefixWords_append_inj heq
    obtain ⟨hes, hr⟩ := operandWords_append_inj heq
    exact ⟨by rw [he, hes], hr⟩

end

theorem toPrefix_inj {a b : Expr} (h : a.toPrefix = b.toPrefix) : a = b := by
  have hwords : a.prefixWords ++ [] = b.prefixWords ++ [] := by
    rw [← words_toPrefix, ← words_toPrefix, h]
  exact (prefixWords_append_inj hwords).1

end Expr

/-! ## Zeros without their sign -/

namespace Binary64
variable {v w : Binary64}

/-- The double, or zero in place of the negative zero. -/
def unsignedZero (v : Binary64) : Binary64 := if v = .finite true .zero then .zero else v

theorem unsignedZero_of_isZero (h : v.isZero = true) : v.unsignedZero = .zero := by
  cases v with
  | nan => cases h
  | inf s => cases h
  | finite s m =>
    have hm : m = .zero := Magnitude.units_inj (eq_of_beq h)
    rw [hm]
    cases s <;> decide

theorem isNaN_unsignedZero (v : Binary64) : v.unsignedZero.isNaN = v.isNaN := by
  unfold unsignedZero
  split
  · next h => rw [h]; rfl
  · rfl

theorem place_unsignedZero (v : Binary64) : v.unsignedZero.place = v.place := by
  unfold unsignedZero
  split
  · next h => rw [h]; rfl
  · rfl

/-- A place is that of one number, or of both zeros. -/
theorem eq_or_isZero_of_place (hv : v.isNaN = false) (hw : w.isNaN = false)
    (h : v.place = w.place) : v = w ∨ v.isZero = true ∧ w.isZero = true := by
  have hinf := place_inf_lt
  cases v with
  | nan => cases hv
  | inf s =>
    cases w with
    | nan => cases hw
    | inf t =>
      left
      have hsign : s = t := by
        cases s <;> cases t <;> simp at h ⊢ <;> omega
      rw [hsign]
    | finite t n =>
      have := place_bounds t n
      cases s <;> omega
  | finite s m =>
    cases w with
    | nan => cases hw
    | inf t =>
      have := place_bounds s m
      cases t <;> omega
    | finite t n =>
      change signedUnits s m = signedUnits t n at h
      have hunits : m.units = n.units := by
        rw [← natAbs_signedUnits s m, h, natAbs_signedUnits]
      obtain rfl := Magnitude.units_inj hunits
      by_cases hzero : m.units = 0
      · exact Or.inr ⟨beq_iff_eq.mpr hzero, beq_iff_eq.mpr hzero⟩
      · left
        have hsign : s = t := by
          cases s <;> cases t <;> simp [signedUnits] at h ⊢ <;> omega
        rw [hsign]

/-- Numbers are equal as what they are without the sign of a zero. -/
theorem eq_iff_unsignedZero (hv : v.isNaN = false) :
    v.eq w = true ↔ v.unsignedZero = w.unsignedZero := by
  rw [eq_iff]
  constructor
  · rintro ⟨_, hw, hplace⟩
    rcases eq_or_isZero_of_place hv hw hplace with heq | ⟨hzero, hzero'⟩
    · rw [heq]
    · rw [unsignedZero_of_isZero hzero, unsignedZero_of_isZero hzero']
  · intro h
    refine ⟨hv, ?_, ?_⟩
    · rw [← isNaN_unsignedZero, ← h, isNaN_unsignedZero, hv]
    · rw [← place_unsignedZero, h, place_unsignedZero]

end Binary64

/-- A word, or the one for zero in place of the one for the negative zero. -/
def Text.unsignedZero (w : Text) : Text := if w = "-0".toList then "0".toList else w

theorem Binary64.format_unsignedZero (v : Binary64) :
    v.unsignedZero.format = Text.unsignedZero v.format := by
  have hneg : (finite true .zero).format = "-0".toList := by decide +kernel
  have hpos : zero.format = "0".toList := by decide +kernel
  unfold unsignedZero Text.unsignedZero
  split
  · next h => rw [h, hneg, hpos]; rfl
  · next h =>
    rw [if_neg]
    intro heq
    exact h (format_inj (heq.trans hneg.symm))

namespace Expr

mutual

/-- The expression with every zero among its constants unsigned. -/
def unsigned : Expr → Expr
  | const v => const v.unsignedZero
  | var i => var i
  | node op es => node op (unsignedList es)

def unsignedList : List Expr → List Expr
  | [] => []
  | e :: es => unsigned e :: unsignedList es

end

mutual

/-- The number of each constant is a word of its own, which nothing else in the form is. -/
theorem mapLexemes_toPrefix_append : ∀ (e : Expr) {rest : Text}, Text.StopsAt Text.isWord rest →
    Text.mapLexemes Text.unsignedZero (e.toPrefix ++ rest) =
      e.unsigned.toPrefix ++ rest.mapLexemes Text.unsignedZero
  | const v, rest, hr => by
    rw [unsigned, toPrefix, toPrefix, Binary64.format_unsignedZero]
    exact Text.mapLexemes_word_append v.format_ne_nil v.isWord_of_mem_format hr
  | var i, rest, hr => by
    have hname : Text.unsignedZero i.name = i.name := by cases i <;> decide
    rw [unsigned, toPrefix,
      Text.mapLexemes_word_append (name_ne_nil i) (isWord_of_mem_name i) hr, hname]
  | node op es, rest, hr => by
    have hsymbol : Text.unsignedZero op.symbol = op.symbol := by cases op <;> decide
    have hop := Text.mapLexemes_word_append (f := Text.unsignedZero) (symbol_ne_nil op)
      (isWord_of_mem_symbol op) (stopsAt_operandsText es rest)
    have hes := mapLexemes_operandsText_append es rest
    rw [unsigned, toPrefix, toPrefix]
    simp only [List.cons_append, List.append_assoc, List.nil_append]
    rw [Text.mapLexemes_cons_bracket _ (by decide), hop, hsymbol, hes,
      Text.mapLexemes_cons_bracket _ (by decide)]
    rfl

theorem mapLexemes_operandsText_append : ∀ (es : List Expr) (rest : Text),
    Text.mapLexemes Text.unsignedZero (operandsText es ++ ')' :: rest) =
      operandsText (unsignedList es) ++ Text.mapLexemes Text.unsignedZero (')' :: rest)
  | [], rest => by
    rw [unsignedList, operandsText_nil]
    rfl
  | e :: es, rest => by
    have he := mapLexemes_toPrefix_append e (stopsAt_operandsText es rest)
    have hes := mapLexemes_operandsText_append es rest
    have hspace := Text.mapLexemes_blanks_append (f := Text.unsignedZero)
      (e.toPrefix ++ (operandsText es ++ ')' :: rest)) Text.isBlanks_space
    rw [he, hes] at hspace
    rw [unsignedList, operandsText_cons, operandsText_cons, List.cons_append, List.append_assoc,
      List.cons_append, List.append_assoc]
    exact hspace

end

theorem mapLexemes_toPrefix (e : Expr) :
    e.toPrefix.mapLexemes Text.unsignedZero = e.unsigned.toPrefix := by
  have h := mapLexemes_toPrefix_append e (Text.stopsAt_nil Text.isWord)
  rwa [Text.mapLexemes_of_isBlanks Text.isBlanks_nil, List.append_nil, List.append_nil] at h

/-! ## Equality -/

mutual

theorem same_iff_unsigned : ∀ (a b : Expr), (∀ v, .const v ∈ a.preorder → v.isNaN = false) →
    (a.same b = true ↔ a.unsigned = b.unsigned)
  | const v, b, h => by
    have hv := h v (by rw [preorder]; exact List.mem_singleton_self _)
    cases b with
    | const w =>
      rw [same, unsigned, unsigned, const.injEq]
      exact Binary64.eq_iff_unsignedZero hv
    | var j => simp [same, unsigned]
    | node op' es' => simp [same, unsigned]
  | var i, b, _ => by
    cases b with
    | const w => simp [same, unsigned]
    | var j => simp [same, unsigned]
    | node op' es' => simp [same, unsigned]
  | node op es, b, h => by
    cases b with
    | const w => simp [same, unsigned]
    | var j => simp [same, unsigned]
    | node op' es' =>
      have hes := sameList_iff_unsignedList es es' (by
        intro v hv
        apply h
        rw [preorder]
        exact List.mem_cons_of_mem _ hv)
      rw [same, unsigned, unsigned, Bool.and_eq_true, beq_iff_eq, hes, node.injEq]

theorem sameList_iff_unsignedList : ∀ (es es' : List Expr),
    (∀ v, .const v ∈ preorderList es → v.isNaN = false) →
    (sameList es es' = true ↔ unsignedList es = unsignedList es')
  | [], [], _ => by simp [sameList]
  | [], e' :: es', _ => by simp [sameList, unsignedList]
  | e :: es, [], _ => by simp [sameList, unsignedList]
  | e :: es, e' :: es', h => by
    rw [preorderList] at h
    have he := same_iff_unsigned e e' fun v hv => h v (List.mem_append_left _ hv)
    have hes := sameList_iff_unsignedList es es' fun v hv => h v (List.mem_append_right _ hv)
    rw [sameList, unsignedList, unsignedList, Bool.and_eq_true, he, hes, List.cons.injEq]

end

end Expr

/-- Where not-a-number is no constant of the one, two expressions are equal just when their
bracketed forms are the same with zero in place of every negative zero. The bracketed forms are
the same as they stand just when the expressions are, the signs of their zeros too. -/
theorem same_iff_toPrefix {a b : Expr} (h : ∀ v, .const v ∈ a.preorder → v.isNaN = false) :
    (a.same b = true ↔
      a.toPrefix.mapLexemes Text.unsignedZero = b.toPrefix.mapLexemes Text.unsignedZero) ∧
    (a.toPrefix = b.toPrefix ↔ a = b) := by
  constructor
  · rw [Expr.same_iff_unsigned a b h, Expr.mapLexemes_toPrefix, Expr.mapLexemes_toPrefix]
    constructor
    · intro heq
      rw [heq]
    · intro heq
      exact Expr.toPrefix_inj heq
  · constructor
    · intro heq
      exact Expr.toPrefix_inj heq
    · intro heq
      rw [heq]

/-- Two sums of a zero and infinity differ in the sign of the zero. -/
theorem same_of_two_zeros :
    let a : Expr := .node .add [.const .zero, .const (.inf false)]
    let b : Expr := .node .add [.const (.finite true .zero), .const (.inf false)]
    (∀ v, .const v ∈ a.preorder → v.isNaN = false) ∧ a.toPrefix = "(+ 0 inf)".toList ∧
      b.toPrefix = "(+ -0 inf)".toList ∧ a.same b = true ∧ a ≠ b := by
  intro a b
  have hnum : ∀ v, .const v ∈ a.preorder → v.isNaN = false := by
    intro v hv
    simp [a, Expr.preorder, Expr.preorderList] at hv
    rcases hv with rfl | rfl <;> rfl
  have hpos : Binary64.zero.format = "0".toList := by decide +kernel
  have hneg : (Binary64.finite true .zero).format = "-0".toList := by decide +kernel
  have ha : a.toPrefix = "(+ 0 inf)".toList := by
    simp only [a, Expr.toPrefix, Expr.operandsText, hpos]
    decide
  have hb : b.toPrefix = "(+ -0 inf)".toList := by
    simp only [b, Expr.toPrefix, Expr.operandsText, hneg]
    decide
  obtain ⟨hsame, hidentical⟩ := same_iff_toPrefix (b := b) hnum
  rw [ha, hb] at hsame hidentical
  refine ⟨hnum, ha, hb, hsame.mpr (by decide +kernel), ?_⟩
  intro heq
  have htext := hidentical.mpr heq
  revert htext
  decide

end PrefixCalc
