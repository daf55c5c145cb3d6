import PrefixCalc.Proofs.Expr.Construction
import PrefixCalc.Proofs.Suite.Record
import PrefixCalc.Proofs.Suite.Tolerance

/-! # What a case comes to

A case passes just where its expectation is met, and a message says what is wrong with every
other one. The kind of a parse error is told just where parsing fails, the value and the
bracketless form just where it gives an expression, whatever is expected; and a report has the
fields that are told, and no others. -/

namespace PrefixCalc
set_option autoImplicit false

theorem ErrorKind.name_ne_nil (k : ErrorKind) : k.name ≠ [] := by
  cases k <;> decide

theorem ParseError.message_ne_nil (err : ParseError) : err.message ≠ [] := by
  unfold message
  cases err.cause <;> simp

namespace CaseResult
variable {r : CaseResult} {j : Json}

/-- The fields of a report. -/
def fields (r : CaseResult) : List (Text × Json) :=
  [("name".toList, .text r.name), ("expression".toList, .text r.expression),
      ("passed".toList, .bool r.passed)]
    ++ field "actual".toList (r.actual.map actualJson)
    ++ field "postfix".toList (r.postfixForm.map .text)
    ++ field "error".toList (r.error.bind nonEmpty)
    ++ field "message".toList (nonEmpty r.message)

theorem toJson_eq (r : CaseResult) : r.toJson = .object r.fields := rfl

theorem mem_field {name key : Text} {value : Option Json} :
    (key, j) ∈ field name value ↔ key = name ∧ value = some j := by
  cases value <;> simp [field, eq_comm]

theorem nonEmpty_eq_some_iff {t : Text} : nonEmpty t = some j ↔ t ≠ [] ∧ .text t = j := by
  simp [nonEmpty]

theorem actual_mem_fields :
    ("actual".toList, j) ∈ r.fields ↔ ∃ v, r.actual = some v ∧ actualJson v = j := by
  simp [fields, mem_field]

theorem postfix_mem_fields :
    ("postfix".toList, j) ∈ r.fields ↔ ∃ t, r.postfixForm = some t ∧ .text t = j := by
  simp [fields, mem_field]

theorem error_mem_fields :
    ("error".toList, j) ∈ r.fields ↔ ∃ k, r.error = some k ∧ k ≠ [] ∧ .text k = j := by
  simp [fields, mem_field, nonEmpty_eq_some_iff, Option.bind_eq_some_iff]

theorem message_mem_fields :
    ("message".toList, j) ∈ r.fields ↔ r.message ≠ [] ∧ .text r.message = j := by
  simp [fields, mem_field, nonEmpty_eq_some_iff]

end CaseResult

namespace Case
variable {c : Case} {e : Expr} {tolerance : Binary64} {r : CaseResult}

/-! ## Results -/

/-- The expectation of the case is met: the parse fails with the kind that it names; or it names
none, and the expression has the value that is expected, if one is. -/
def Met (c : Case) (tolerance : Binary64) : Prop :=
  (∃ k err, c.error = some k ∧ parse c.expression = .error err ∧ err.kind = k) ∨
    (c.error = none ∧ ∃ e, parse c.expression = .ok e ∧
      ∀ x, c.expected = some x → (e.eval c.arguments).valuesMatch x tolerance = .ok true)

/-- What the result of a case tells, by what parsing its expression comes to. -/
structure Verdict (c : Case) (tolerance : Binary64) (r : CaseResult) : Prop where
  passed : r.passed = true ↔ c.Met tolerance
  message : r.message = [] ↔ r.passed = true
  error : ∀ k, r.error = some k ↔ ∃ err, parse c.expression = .error err ∧ err.kind.name = k
  actual : ∀ v, r.actual = some v ↔
    ∃ e, parse c.expression = .ok e ∧ e.eval c.arguments = v
  postfixForm : ∀ t, r.postfixForm = some t ↔
    ∃ e, parse c.expression = .ok e ∧ e.toPostfix = t

/-- What the report of a result tells, by what parsing the expression comes to. -/
structure Reports (c : Case) (r : CaseResult) (fields : List (Text × Json)) : Prop where
  error : ∀ j, ("error".toList, j) ∈ fields ↔
    ∃ err, parse c.expression = .error err ∧ .text err.kind.name = j
  message : ∀ j, ("message".toList, j) ∈ fields ↔ r.passed = false ∧ .text r.message = j
  actual : ∀ j, ("actual".toList, j) ∈ fields ↔
    ∃ e, parse c.expression = .ok e ∧ CaseResult.actualJson (e.eval c.arguments) = j
  postfixForm : ∀ j, ("postfix".toList, j) ∈ fields ↔
    ∃ e, parse c.expression = .ok e ∧ .text e.toPostfix = j

theorem Verdict.reports (h : c.Verdict tolerance r) : c.Reports r r.fields where
  error j := by
    simp only [CaseResult.error_mem_fields, h.error, exists_exists_and_eq_and, ne_eq,
      ErrorKind.name_ne_nil, not_false_eq_true, true_and]
  message j := by
    rw [CaseResult.message_mem_fields, ne_eq, h.message, Bool.not_eq_true]
  actual j := by
    simp only [CaseResult.actual_mem_fields, h.actual, exists_exists_and_eq_and]
  postfixForm j := by
    simp only [CaseResult.postfix_mem_fields, h.postfixForm, exists_exists_and_eq_and]

theorem met_of_parse_error {err : ParseError} (h : parse c.expression = .error err) :
    c.Met tolerance ↔ c.error = some err.kind := by
  simp [Met, h]

theorem met_of_parse_ok (h : parse c.expression = .ok e) :
    c.Met tolerance ↔ c.error = none ∧
      ∀ x, c.expected = some x → (e.eval c.arguments).valuesMatch x tolerance = .ok true := by
  simp [Met, h]

/-- Where parsing fails the expected value and the tolerance are not looked at. -/
theorem verdict_failedParse {err : ParseError} (h : parse c.expression = .error err) :
    c.Verdict tolerance (c.failedParse err) where
  passed := by
    rw [met_of_parse_error h, failedParse, beq_iff_eq]
  message := by
    unfold failedParse
    cases hmet : c.error == some err.kind with
    | true => simp
    | false =>
      have hmessage := err.message_ne_nil
      cases herror : c.error <;> simp [hmessage]
  error k := by simp [failedParse, h]
  actual v := by simp [failedParse, h]
  postfixForm t := by simp [failedParse, h]

/-- Something is said of a value just where the expectation is not met. -/
theorem exists_complaint_eq (v : Binary64) (h : tolerance.lt .zero = false) :
    ∃ m, c.complaint v tolerance = .ok m ∧ m ≠ some [] ∧
      (m.isNone = true ↔ c.error = none ∧
        ∀ x, c.expected = some x → v.valuesMatch x tolerance = .ok true) := by
  unfold complaint
  cases herror : c.error with
  | some k => exact ⟨_, rfl, by simp, by simp⟩
  | none =>
    cases hexpected : c.expected with
    | none => exact ⟨none, rfl, nofun, by simp⟩
    | some x =>
      obtain ⟨met, hmet⟩ : ∃ b, v.valuesMatch x tolerance = .ok b :=
        ⟨_, Binary64.valuesMatch_eq_ok h⟩
      dsimp only
      rw [hmet]
      cases met with
      | true => exact ⟨none, rfl, nofun, by simp [hmet]⟩
      | false => exact ⟨_, rfl, by simp, by simp [hmet]⟩

theorem exists_verdict_evaluated (hparse : parse c.expression = .ok e)
    (h : tolerance.lt .zero = false) :
    ∃ r, c.evaluated e tolerance = .ok r ∧ c.Verdict tolerance r := by
  obtain ⟨m, hm, hsaid, hmet⟩ := c.exists_complaint_eq (e.eval c.arguments) h
  rw [evaluated, hm]
  refine ⟨_, rfl, ?_⟩
  constructor
  · rw [met_of_parse_ok hparse]
    exact hmet
  · cases m with
    | none => simp
    | some t => simpa using hsaid
  · simp [hparse]
  · simp [hparse]
  · simp [hparse]

/-- A case under a tolerance that is not negative has a result. -/
theorem exists_verdict (c : Case) (h : tolerance.lt .zero = false) :
    ∃ r, c.run tolerance = .ok r ∧ c.Verdict tolerance r := by
  cases hparse : parse c.expression with
  | error err => exact ⟨_, run_of_parse_error hparse, verdict_failedParse hparse⟩
  | ok e =>
    rw [run_of_parse_ok hparse]
    exact exists_verdict_evaluated hparse h

end Case

/-- A case has a result under every tolerance that is not negative, and passes just where its
expectation is met. It has a message just where it does not pass, the kind of the error just
where parsing fails, and else the bracketless form and the value, for the numbers that the record
of the case binds to the variables under any rule for numbers, and zero for a variable that it
leaves out. The report has the same fields. Operands are counted by a finite double unless the
text is longer than 2 ^ 1023. -/
theorem case_passes_iff_met (c : Case) {tolerance : Binary64}
    (nonneg : tolerance.lt .zero = false) :
    ∃ r, c.run tolerance = .ok r ∧ c.Verdict tolerance r ∧
      (∃ fields, r.toJson = .object fields ∧ c.Reports r fields) ∧
      (c.expression.length ≤ twoPow 1023 →
        ∀ e, parse c.expression = .ok e → e.eval? c.arguments = r.actual) ∧
      ∀ (rule : NumberRule) entries, Case.ofDatum rule (.map entries) = .ok c →
        ∀ i : Variable,
        (∀ d, Case.boundDatum? entries i = some d → rule d = .ok (c.arguments.get i)) ∧
        (Case.boundDatum? entries i = none → c.arguments.get i = .zero) := by
  obtain ⟨r, hrun, hverdict⟩ := c.exists_verdict nonneg
  refine ⟨r, hrun, hverdict, ⟨r.fields, r.toJson_eq, hverdict.reports⟩, ?_, ?_⟩
  · intro hlength e hparse
    have hactual : r.actual = some (e.eval c.arguments) := (hverdict.actual _).2 ⟨e, hparse, rfl⟩
    rw [hactual]
    refine Expr.eval?_eq_some_eval (parse_eq_ok_iff.1 hparse).wellFormed ?_ _
    intro op es hmem
    apply Binary64.isFinite_ofNat
    exact Nat.lt_of_lt_of_le (length_operands_lt_of_parse hparse hmem) hlength
  · intro rule entries hread i
    exact Case.get_arguments_of_ofDatum hread i

/-- The difference of two infinities is not-a-number and passes where that is expected; nothing
is bound to the third variable. -/
theorem expected_nan_passes :
    let entries : List (Datum × Datum) :=
      [(.text "expression".toList, .text "(- x y)".toList),
        (.text "bindings".toList,
          .map [(.text ['y'], .float (.inf false)), (.text ['x'], .float (.inf false))]),
        (.text "expected".toList, .float .nan)]
    let c : Case := ⟨none, "(- x y)".toList, ⟨.inf false, .inf false, .zero⟩, some .nan, none⟩
    Binary64.zero.lt .zero = false ∧ Case.ofDatum .standard (.map entries) = .ok c ∧
      c.arguments.get .z = .zero ∧
      ∃ r, c.run .zero = .ok r ∧ r.passed = true ∧ r.message = [] ∧ r.actual = some .nan ∧
        ∃ fields, r.toJson = .object fields ∧ ("actual".toList, .text "nan".toList) ∈ fields ∧
          ∀ j, ("message".toList, j) ∉ fields := by
  intro entries c
  have hzero : Binary64.zero.lt .zero = false := by decide
  have hread : Case.ofDatum .standard (.map entries) = .ok c := by decide +kernel
  have hparse : parse c.expression = .ok (.node .subtract [.var .x, .var .y]) := by
    have hwords : c.expression.words = [['('], ['-'], ['x'], ['y'], [')']] := by decide +kernel
    rw [parse_eq_ok_iff, hwords]
    exact .node rfl (.cons (.var .x) (.cons (.var .y) .nil))
  have hvalue : (Expr.node .subtract [.var .x, .var .y]).eval c.arguments = .nan := by
    decide +kernel
  obtain ⟨r, hrun, hverdict, ⟨fields, hfields, hreports⟩, _, hbound⟩ :=
    case_passes_iff_met c hzero
  have hpassed : r.passed = true := by
    rw [hverdict.passed, Case.met_of_parse_ok hparse, hvalue]
    refine ⟨rfl, ?_⟩
    intro x hx
    cases hx
    rfl
  refine ⟨hzero, hread, (hbound .standard entries hread .z).2 (by decide +kernel), r, hrun, hpassed,
    hverdict.message.2 hpassed, (hverdict.actual _).2 ⟨_, hparse, hvalue⟩, fields, hfields,
    (hreports.actual _).2 ⟨_, hparse, ?_⟩, ?_⟩
  · rw [hvalue]
    rfl
  · intro j hj
    have hfails := ((hreports.message j).1 hj).1
    rw [hpassed] at hfails
    cases hfails

end PrefixCalc
