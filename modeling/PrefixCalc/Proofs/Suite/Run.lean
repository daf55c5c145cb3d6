import Mathlib.Data.List.Perm.Basic
import PrefixCalc.Proofs.Outcome
import PrefixCalc.Suite.Report

/-! # Runs of a suite

A run takes the cases one by one and keeps nothing between them. It ends in a fault just where
some case comes to a comparison of two numbers under a negative tolerance; else the results are
those of the cases by themselves, one for each case and in the same order. -/

namespace PrefixCalc
set_option autoImplicit false

namespace Binary64

theorem valuesMatch_eq_error_iff {actual expected tolerance : Binary64} :
    actual.valuesMatch expected tolerance = .error .negativeTolerance ↔
      tolerance.lt zero = true ∧ expected.isNaN = false ∧ actual.isNaN = false := by
  unfold valuesMatch
  cases ha : actual.isNaN <;> cases hx : expected.isNaN <;> simp

end Binary64

namespace Expr

theorem isNaN_eval_eq_false_iff {e : Expr} {p : Point} :
    (e.eval p).isNaN = false ↔ ∃ v, e.eval? p = some v ∧ v.isNaN = false := by
  unfold eval
  cases e.eval? p with
  | none => simp [Binary64.isNaN]
  | some v => simp

end Expr

namespace Case
variable {c : Case} {e : Expr} {tolerance : Binary64}

/-- The case has a number to compare with, and its expression has a number as its value. -/
def ComparesNumbers (c : Case) : Prop :=
  c.error = none ∧ (∃ x, c.expected = some x ∧ x.isNaN = false) ∧
    ∃ e v, parse c.expression = .ok e ∧ e.eval? c.arguments = some v ∧ v.isNaN = false

theorem run_of_parse_error {err : ParseError} (h : parse c.expression = .error err) :
    c.run tolerance = .ok (c.failedParse err) := by
  rw [run, h]

theorem run_of_parse_ok (h : parse c.expression = .ok e) :
    c.run tolerance = c.evaluated e tolerance := by
  rw [run, h]

theorem evaluated_eq_error_iff :
    c.evaluated e tolerance = .error .negativeTolerance ↔
      tolerance.lt .zero = true ∧ c.error = none ∧
        (∃ x, c.expected = some x ∧ x.isNaN = false) ∧ (e.eval c.arguments).isNaN = false := by
  rw [evaluated, map_eq_error_iff, complaint]
  cases herror : c.error with
  | some k => simp
  | none =>
    cases hexpected : c.expected with
    | none => simp
    | some x =>
      simp only [map_eq_error_iff, Binary64.valuesMatch_eq_error_iff]
      simp

/-- A case by itself ends in a fault only at a comparison under a negative tolerance. -/
theorem run_eq_error_iff :
    c.run tolerance = .error .negativeTolerance ↔
      tolerance.lt .zero = true ∧ c.ComparesNumbers := by
  cases hparse : parse c.expression with
  | error err =>
    rw [run_of_parse_error hparse]
    simp [ComparesNumbers, hparse]
  | ok e =>
    rw [run_of_parse_ok hparse, evaluated_eq_error_iff, Expr.isNaN_eval_eq_false_iff]
    simp [ComparesNumbers, hparse]

end Case

namespace Suite
variable {tolerance : Binary64} {cs : List Case}

theorem runCases_eq_ok_iff {rs : List CaseResult} :
    runCases tolerance cs = .ok rs ↔ List.Forall₂ (fun c r => c.run tolerance = .ok r) cs rs := by
  induction cs generalizing rs with
  | nil => simp [runCases, eq_comm]
  | cons c cs ih =>
    rw [runCases, List.forall₂_cons_left_iff]
    cases c.run tolerance with
    | error f => simp
    | ok r =>
      simp only [map_eq_ok_iff, ih, Except.ok.injEq]
      constructor
      · rintro ⟨rs', htail, rfl⟩
        exact ⟨r, rs', rfl, htail, rfl⟩
      · rintro ⟨_, rs', rfl, htail, rfl⟩
        exact ⟨rs', htail, rfl⟩

theorem runCases_eq_error_iff :
    runCases tolerance cs = .error .negativeTolerance ↔
      ∃ c ∈ cs, c.run tolerance = .error .negativeTolerance := by
  induction cs with
  | nil => simp [runCases]
  | cons c cs ih =>
    rw [runCases, List.exists_mem_cons_iff, ← ih]
    cases c.run tolerance with
    | error f =>
      cases f
      simp
    | ok r => simp [map_eq_error_iff]

/-- Some case comes to a comparison under a negative tolerance. -/
def ComparesBelowZero (s : Suite) (tolerance : Binary64) : Prop :=
  tolerance.lt .zero = true ∧ ∃ c ∈ s.cases, c.ComparesNumbers

theorem run_eq_error_iff {s : Suite} {override : Option Binary64} :
    s.run override = .error .negativeTolerance ↔
      s.ComparesBelowZero (s.effectiveTolerance override) := by
  rw [run, map_eq_error_iff, runCases_eq_error_iff]
  simp only [Case.run_eq_error_iff, ComparesBelowZero]
  constructor
  · rintro ⟨c, hc, hneg, hcompares⟩
    exact ⟨hneg, c, hc, hcompares⟩
  · rintro ⟨hneg, c, hc, hcompares⟩
    exact ⟨c, hc, hneg, hcompares⟩

theorem run_eq_ok_iff {s : Suite} {override : Option Binary64} {rs : List CaseResult} :
    s.run override = .ok ⟨rs, []⟩ ↔
      List.Forall₂ (fun c r => c.run (s.effectiveTolerance override) = .ok r) s.cases rs := by
  rw [run, map_eq_ok_iff, ← runCases_eq_ok_iff]
  simp

theorem exists_run_eq {s : Suite} {override : Option Binary64}
    (h : ¬ s.ComparesBelowZero (s.effectiveTolerance override)) :
    ∃ rs, s.run override = .ok ⟨rs, []⟩ := by
  cases hrun : s.run override with
  | error f =>
    cases f
    exact absurd (run_eq_error_iff.1 hrun) h
  | ok result =>
    obtain ⟨rs, _, rfl⟩ := map_eq_ok_iff.1 hrun
    exact ⟨rs, rfl⟩

theorem run_of_getElem? {s : Suite} {override : Option Binary64} {rs : List CaseResult} {i : Nat}
    {c : Case} {r : CaseResult} (h : s.run override = .ok ⟨rs, []⟩) (hc : s.cases[i]? = some c)
    (hr : rs[i]? = some r) : c.run (s.effectiveTolerance override) = .ok r := by
  obtain ⟨hi, rfl⟩ := List.getElem?_eq_some_iff.1 hc
  obtain ⟨hi', rfl⟩ := List.getElem?_eq_some_iff.1 hr
  exact (run_eq_ok_iff.1 h).get hi hi'

end Suite

namespace SuiteResult

theorem passed_add_failed (r : SuiteResult) : r.passed + r.failed = r.cases.length := by
  have h := List.length_eq_countP_add_countP (l := r.cases) (·.passed)
  rw [h, passed, failed]
  simp

end SuiteResult

/-- A run faults just where a case compares numbers under a negative tolerance. Else each case
has the result that it has by itself, in any order of the cases. -/
theorem run_case_by_case (s : Suite) (override : Option Binary64) :
    let tolerance := override.getD s.tolerance
    (s.run override = .error .negativeTolerance ↔ s.ComparesBelowZero tolerance) ∧
    (¬ s.ComparesBelowZero tolerance →
      ∃ rs, s.run override = .ok ⟨rs, []⟩ ∧
        List.Forall₂ (fun c r => c.run tolerance = .ok r) s.cases rs ∧
        (SuiteResult.mk rs []).passed + (SuiteResult.mk rs []).failed = s.cases.length ∧
        ∀ cs : List Case, cs.Perm s.cases →
          ∃ rs', Suite.run ⟨s.tolerance, cs⟩ override = .ok ⟨rs', []⟩ ∧
            List.Forall₂ (fun c r => c.run tolerance = .ok r) cs rs' ∧ rs'.Perm rs) := by
  intro tolerance
  refine ⟨Suite.run_eq_error_iff, ?_⟩
  intro hn
  obtain ⟨rs, hrun⟩ := Suite.exists_run_eq hn
  have hcases := Suite.run_eq_ok_iff.1 hrun
  refine ⟨rs, hrun, hcases, ?_, ?_⟩
  · rw [SuiteResult.passed_add_failed, hcases.length_eq]
  · intro cs hperm
    obtain ⟨rs', hcases', hperm'⟩ := List.perm_comp_forall₂ hperm hcases
    exact ⟨rs', Suite.run_eq_ok_iff.2 hcases', hcases', hperm'⟩

-- an infinity is compared, too; where a parse error is expected, nothing is
example :
    let value : Case := ⟨none, "x".toList, ⟨.inf true, .zero, .zero⟩, some (.inf true), none⟩
    let failing : Case := ⟨none, "(".toList, ⟨.one, .zero, .zero⟩, none, some .operationNotFound⟩
    Suite.run ⟨.zero, [failing, value]⟩ (some (.inf true)) = .error .negativeTolerance ∧
      (Suite.run ⟨.zero, [failing]⟩ (some (.inf true))).map (·.passed) = .ok 1 := by
  decide +kernel

end PrefixCalc
