import PrefixCalc.Proofs.Number.Order
import PrefixCalc.Proofs.Suite.Run

/-! # Runs under two tolerances

A larger tolerance only lets more cases pass. It changes the results of those cases alone in
which two numbers are compared, and of these only whether they pass and what is said of it. The
least tolerance is zero, under which numbers have to be equal. -/

namespace PrefixCalc
set_option autoImplicit false

namespace Binary64
variable {a x s t tolerance : Binary64}

theorem isClose_mono (hle : s.le t = true) (h : a.isClose x s = true) : a.isClose x t = true := by
  simp only [isClose, Bool.or_eq_true, Bool.and_eq_true] at h ⊢
  rcases h with heq | ⟨hfinite, hzero | hdist⟩
  · exact Or.inl heq
  · exact Or.inr ⟨hfinite, Or.inl hzero⟩
  · exact Or.inr ⟨hfinite, Or.inr (le_trans hdist hle)⟩

theorem isClose_iff_eq (hs : s.isZero = true) : a.isClose x s = true ↔ a.eq x = true := by
  obtain ⟨hnum, hplace⟩ := place_of_isZero hs
  have hle : (sub x a).abs.le s = true ↔ (sub x a).abs.le zero = true := by
    rw [le_iff, le_iff, hnum, hplace, (place_of_isZero (a := zero) rfl).2]
    rfl
  simp only [isClose, Bool.or_eq_true, Bool.and_eq_true, hle, or_self]
  constructor
  · rintro (heq | ⟨⟨ha, hx⟩, hzero⟩)
    · exact heq
    · exact (abs_sub_le_zero_iff ha hx).1 hzero
  · exact Or.inl

theorem isClose_of_isNaN (h : a.isNaN = true ∨ x.isNaN = true) : a.isClose x s = false := by
  rw [Bool.eq_false_iff]
  simp only [isClose, ne_eq, Bool.or_eq_true, Bool.and_eq_true, eq_iff]
  cases a <;> cases x <;> simp_all [isNaN, isFinite]

/-- Not-a-number is compared with nothing, so that the tolerance is not looked at. -/
theorem valuesMatch_of_isNaN (h : a.isNaN = true ∨ x.isNaN = true) :
    a.valuesMatch x tolerance = .ok (a.isNaN && x.isNaN) := by
  rw [valuesMatch, if_pos (Bool.or_eq_true _ _ ▸ h)]

theorem valuesMatch_eq_ok (h : tolerance.lt zero = false) :
    a.valuesMatch x tolerance = .ok (a.isNaN && x.isNaN || a.isClose x tolerance) := by
  by_cases hnan : a.isNaN = true ∨ x.isNaN = true
  · rw [valuesMatch_of_isNaN hnan, isClose_of_isNaN hnan, Bool.or_false]
  · have hnum : a.isNaN = false ∧ x.isNaN = false := by simpa using hnan
    simp [valuesMatch, hnum, h]

end Binary64

namespace Case
variable {c : Case} {e : Expr} {x s t tolerance : Binary64} {r r' : CaseResult}

/-- What two tolerances, the second not below the first, make of a case. -/
structure Widens (c : Case) (r r' : CaseResult) : Prop where
  passed : r.passed = true → r'.passed = true
  actual : r'.actual = r.actual
  postfixForm : r'.postfixForm = r.postfixForm
  error : r'.error = r.error
  same : (c.error ≠ none ∨ c.expected = some .nan ∨ c.expected = none ∨
    ∃ err, parse c.expression = .error err) → r' = r

theorem Widens.refl (c : Case) (r : CaseResult) : c.Widens r r :=
  ⟨id, rfl, rfl, rfl, fun _ => rfl⟩

theorem complaint_eq {v : Binary64} (s t : Binary64)
    (h : c.error = none → ∀ x, c.expected = some x → v.isNaN = true ∨ x.isNaN = true) :
    c.complaint v s = c.complaint v t := by
  unfold complaint
  cases herror : c.error with
  | some k => rfl
  | none =>
    cases hexpected : c.expected with
    | none => rfl
    | some x =>
      have hnan := h herror x hexpected
      dsimp only
      rw [Binary64.valuesMatch_of_isNaN hnan, Binary64.valuesMatch_of_isNaN hnan]

/-- The tolerance matters only where numbers are compared. -/
theorem run_eq_of_not_comparesNumbers (h : ¬ c.ComparesNumbers) (s t : Binary64) :
    c.run s = c.run t := by
  cases hparse : parse c.expression with
  | error err => rw [run_of_parse_error hparse, run_of_parse_error hparse]
  | ok e =>
    have hnan : c.error = none → ∀ x, c.expected = some x →
        (e.eval c.arguments).isNaN = true ∨ x.isNaN = true := by
      intro herror x hexpected
      by_contra hn
      obtain ⟨hv, hx⟩ := by simpa using hn
      obtain ⟨v, heval, hv⟩ := Expr.isNaN_eval_eq_false_iff.1 hv
      exact h ⟨herror, ⟨x, hexpected, hx⟩, e, v, hparse, heval, hv⟩
    rw [run_of_parse_ok hparse, run_of_parse_ok hparse, evaluated, evaluated, complaint_eq s t hnan]

theorem exists_run_of_expected (hparse : parse c.expression = .ok e) (herror : c.error = none)
    (hexpected : c.expected = some x) (h : tolerance.lt .zero = false) :
    let v := e.eval c.arguments
    ∃ message, c.run tolerance = .ok ⟨c.label, c.expression,
      v.isNaN && x.isNaN || v.isClose x tolerance, some v, some e.toPostfix, none, message⟩ := by
  intro v
  rw [run_of_parse_ok hparse, evaluated, complaint, herror, hexpected]
  dsimp only
  rw [Binary64.valuesMatch_eq_ok h]
  cases v.isNaN && x.isNaN || v.isClose x tolerance
  · exact ⟨_, rfl⟩
  · exact ⟨_, rfl⟩

theorem widens_of_run (hs : Binary64.zero.le s = true) (hle : s.le t = true)
    (hr : c.run s = .ok r) (hr' : c.run t = .ok r') : c.Widens r r' := by
  by_cases hcompares : c.ComparesNumbers
  · obtain ⟨herror, ⟨x, hexpected, hx⟩, e, v, hparse, _⟩ := hcompares
    have hlow := Binary64.lt_eq_false_of_le hs
    have hhigh := Binary64.lt_eq_false_of_le (Binary64.le_trans hs hle)
    obtain ⟨m, hm⟩ := exists_run_of_expected hparse herror hexpected hlow
    obtain ⟨m', hm'⟩ := exists_run_of_expected hparse herror hexpected hhigh
    cases Except.ok.inj (hr.symm.trans hm)
    cases Except.ok.inj (hr'.symm.trans hm')
    refine ⟨?_, rfl, rfl, rfl, ?_⟩
    · simp only [Bool.or_eq_true]
      exact Or.imp_right (Binary64.isClose_mono hle)
    · rintro (hsome | hnan | hnone | ⟨err, herr⟩)
      · exact absurd herror hsome
      · cases hexpected.symm.trans hnan
        cases hx
      · cases hexpected.symm.trans hnone
      · cases hparse.symm.trans herr
  · rw [run_eq_of_not_comparesNumbers hcompares s t, hr'] at hr
    cases hr
    exact .refl c r

/-- Under zero the value has to be the expected one, not-a-number being itself here. -/
theorem passed_iff_of_isZero (hs : s.isZero = true) (herror : c.error = none)
    (hexpected : c.expected = some x) (hr : c.run s = .ok r) :
    r.passed = true ↔ ∃ v, r.actual = some v ∧
      (v.isNaN = true ∧ x.isNaN = true ∨ v.eq x = true) := by
  cases hparse : parse c.expression with
  | error err =>
    cases Except.ok.inj (hr.symm.trans (run_of_parse_error hparse))
    simp [failedParse, herror]
  | ok e =>
    obtain ⟨hnum, hplace⟩ := Binary64.place_of_isZero hs
    have hlow : s.lt .zero = false := by
      apply Binary64.lt_eq_false_of_le
      rw [Binary64.le_iff, hnum, hplace]
      exact ⟨rfl, rfl, Int.le_refl 0⟩
    obtain ⟨m, hm⟩ := exists_run_of_expected hparse herror hexpected hlow
    cases Except.ok.inj (hr.symm.trans hm)
    simp only [Bool.or_eq_true, Bool.and_eq_true, Binary64.isClose_iff_eq hs, Option.some.injEq,
      exists_eq_left']

end Case

theorem Suite.exists_run_of_nonneg (suite : Suite) {tolerance : Binary64}
    (h : Binary64.zero.le tolerance = true) :
    ∃ rs, suite.run (some tolerance) = .ok ⟨rs, []⟩ := by
  apply exists_run_eq
  rintro ⟨hneg, _⟩
  rw [effectiveTolerance, Option.getD_some, Binary64.lt_eq_false_of_le h] at hneg
  cases hneg

namespace SuiteResult

theorem valid_iff {r : SuiteResult} :
    r.valid = true ↔ r.errors = [] ∧ ∀ c ∈ r.cases, c.passed = true := by
  simp [valid, failed]

end SuiteResult

/-- Under a larger tolerance all that passed passes, and only comparisons of numbers change.
Under zero a value passes just where it is the expected one. -/
theorem tolerance_monotone (suite : Suite) {s t : Binary64} (nonneg : Binary64.zero.le s = true)
    (hle : s.le t = true) :
    ∃ rs rs', suite.run (some s) = .ok ⟨rs, []⟩ ∧ suite.run (some t) = .ok ⟨rs', []⟩ ∧
      rs.length = suite.cases.length ∧ rs'.length = suite.cases.length ∧
      ((SuiteResult.mk rs []).valid = true → (SuiteResult.mk rs' []).valid = true) ∧
      ∀ (i : Nat) c r r', suite.cases[i]? = some c → rs[i]? = some r → rs'[i]? = some r' →
        c.Widens r r' ∧
        (s.isZero = true → ∀ x, c.error = none → c.expected = some x →
          (r.passed = true ↔ ∃ v, r.actual = some v ∧
            (v.isNaN = true ∧ x.isNaN = true ∨ v.eq x = true))) := by
  obtain ⟨rs, hrs⟩ := suite.exists_run_of_nonneg nonneg
  obtain ⟨rs', hrs'⟩ := suite.exists_run_of_nonneg (Binary64.le_trans nonneg hle)
  have hlength := (Suite.run_eq_ok_iff.1 hrs).length_eq
  have hlength' := (Suite.run_eq_ok_iff.1 hrs').length_eq
  have hwidens : ∀ (i : Nat) c r r', suite.cases[i]? = some c → rs[i]? = some r →
      rs'[i]? = some r' → c.Widens r r' := by
    intro i c r r' hc hr hr'
    exact Case.widens_of_run nonneg hle (Suite.run_of_getElem? hrs hc hr)
      (Suite.run_of_getElem? hrs' hc hr')
  refine ⟨rs, rs', hrs, hrs', hlength.symm, hlength'.symm, ?_, ?_⟩
  · intro hvalid
    have hpassed := (SuiteResult.valid_iff.1 hvalid).2
    refine SuiteResult.valid_iff.2 ⟨rfl, ?_⟩
    intro r' hr'
    obtain ⟨i, hi, rfl⟩ := List.mem_iff_getElem.1 hr'
    dsimp only at hi hpassed
    have hi' : i < rs.length := by omega
    have hic : i < suite.cases.length := by omega
    exact (hwidens i _ _ _ (List.getElem?_eq_getElem hic) (List.getElem?_eq_getElem hi')
      (List.getElem?_eq_getElem hi)).passed (hpassed _ (List.getElem_mem hi'))
  · intro i c r r' hc hr hr'
    refine ⟨hwidens i c r r' hc hr hr', ?_⟩
    intro hzero x herror hexpected
    exact Case.passed_iff_of_isZero hzero herror hexpected (Suite.run_of_getElem? hrs hc hr)

/-- A value that is not the expected one passes where the tolerance is large enough. -/
theorem inexact_value_passes_under_one :
    let suite : Suite := ⟨.zero, [⟨none, "x".toList, ⟨.one, .zero, .zero⟩, some .zero, none⟩]⟩
    Binary64.zero.le .zero = true ∧ Binary64.zero.le .one = true ∧
    ∃ rs rs', suite.run (some .zero) = .ok ⟨rs, []⟩ ∧ suite.run (some .one) = .ok ⟨rs', []⟩ ∧
      (SuiteResult.mk rs []).passed = 0 ∧ (SuiteResult.mk rs' []).passed = 1 ∧
      ∀ (i : Nat) c r r', suite.cases[i]? = some c → rs[i]? = some r → rs'[i]? = some r' →
        c.Widens r r' := by
  intro suite
  have hzero : Binary64.zero.le .zero = true := by decide
  have hone : Binary64.zero.le .one = true := by decide +kernel
  obtain ⟨rs, rs', hrs, hrs', _, _, _, hcases⟩ := tolerance_monotone suite hzero hone
  have hfails : (suite.run (some .zero)).map (·.passed) = .ok 0 := by decide +kernel
  have hpasses : (suite.run (some .one)).map (·.passed) = .ok 1 := by decide +kernel
  rw [hrs] at hfails
  rw [hrs'] at hpasses
  refine ⟨hzero, hone, rs, rs', hrs, hrs', Except.ok.inj hfails, Except.ok.inj hpasses, ?_⟩
  intro i c r r' hc hr hr'
  exact (hcases i c r r' hc hr hr').1

end PrefixCalc
