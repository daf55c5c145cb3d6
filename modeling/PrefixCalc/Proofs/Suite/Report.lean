import PrefixCalc.Proofs.Json.Writable
import PrefixCalc.Proofs.Suite.Loading

/-! # What reports tell

The entries of a summary that begin as errors or as failures do are the errors and the failing
cases. The structured report can always be written, whatever the values are, and warnings are
noted for the failing cases alone. -/

namespace PrefixCalc
set_option autoImplicit false

namespace CaseResult

theorem writable_actualJson (v : Binary64) : (actualJson v).Writable := by
  unfold actualJson
  split
  · next finite => exact .number finite
  · exact .text _

theorem writable_field {name : Text} {value : Option Json}
    (h : ∀ j, value = some j → j.Writable) : ∀ f ∈ field name value, f.2.Writable := by
  rintro ⟨key, j⟩ hf
  exact h j (mem_field.1 hf).2

theorem writable_of_nonEmpty {t : Text} {j : Json} (h : nonEmpty t = some j) : j.Writable := by
  obtain ⟨_, rfl⟩ := nonEmpty_eq_some_iff.1 h
  exact .text t

theorem writable_toJson (r : CaseResult) : r.toJson.Writable := by
  have hactual : ∀ j, r.actual.map actualJson = some j → j.Writable := by
    intro j h
    obtain ⟨v, _, rfl⟩ := Option.map_eq_some_iff.1 h
    exact writable_actualJson v
  have hpostfix : ∀ j, r.postfixForm.map Json.text = some j → j.Writable := by
    intro j h
    obtain ⟨t, _, rfl⟩ := Option.map_eq_some_iff.1 h
    exact .text t
  have herror : ∀ j, r.error.bind nonEmpty = some j → j.Writable := by
    intro j h
    obtain ⟨t, _, ht⟩ := Option.bind_eq_some_iff.1 h
    exact writable_of_nonEmpty ht
  refine .object ?_
  intro f hf
  simp only [List.mem_append, or_assoc] at hf
  rcases hf with hf | hf | hf | hf | hf
  · simp only [List.mem_cons, List.not_mem_nil, or_false] at hf
    rcases hf with rfl | rfl | rfl
    · exact .text _
    · exact .text _
    · exact .bool _
  · exact writable_field hactual f hf
  · exact writable_field hpostfix f hf
  · exact writable_field herror f hf
  · exact writable_field (fun _ => writable_of_nonEmpty) f hf

end CaseResult

namespace SuiteResult
variable {r : SuiteResult}

/-- The results of the cases that do not pass. -/
def failing (r : SuiteResult) : List CaseResult := r.cases.filter (!·.passed)

def errorEntry (message : Text) : Text := "  Error: ".toList ++ message

def failEntry (c : CaseResult) : Text :=
  "  FAIL ".toList ++ c.name ++ ": ".toList ++ c.message

def heading (valid : Bool) : Text :=
  "Suite ".toList ++ if valid then "PASSED".toList else "FAILED".toList

theorem summaryLines_eq (r : SuiteResult) :
    r.summaryLines = heading r.valid :: ("  Passed: ".toList ++ Text.ofNat r.passed) ::
      ("  Failed: ".toList ++ Text.ofNat r.failed) ::
        (r.errors.map errorEntry ++ r.failing.map failEntry) := rfl

theorem filter_summaryLines {q : Text → Bool} (hheading : ∀ b, ¬ q (heading b) = true)
    (hpassed : ∀ t, ¬ q ("  Passed: ".toList ++ t) = true)
    (hfailed : ∀ t, ¬ q ("  Failed: ".toList ++ t) = true) :
    r.summaryLines.filter q =
      (r.errors.map errorEntry).filter q ++ (r.failing.map failEntry).filter q := by
  rw [summaryLines_eq, List.filter_cons_of_neg (hheading _), List.filter_cons_of_neg (hpassed _),
    List.filter_cons_of_neg (hfailed _), List.filter_append]

theorem errorEntries_eq (r : SuiteResult) :
    r.summaryLines.filter ("  Error: ".toList.isPrefixOf ·) = r.errors.map errorEntry := by
  have herrors : (r.errors.map errorEntry).filter ("  Error: ".toList.isPrefixOf ·) =
      r.errors.map errorEntry := by
    rw [List.filter_eq_self, List.forall_mem_map]
    exact fun _ _ => rfl
  have hfailing : (r.failing.map failEntry).filter ("  Error: ".toList.isPrefixOf ·) = [] := by
    rw [List.filter_eq_nil_iff, List.forall_mem_map]
    exact fun _ _ => Bool.false_ne_true
  rw [filter_summaryLines, herrors, hfailing, List.append_nil]
  · intro b
    cases b <;> exact Bool.false_ne_true
  · exact fun _ => Bool.false_ne_true
  · exact fun _ => Bool.false_ne_true

theorem failEntries_eq (r : SuiteResult) :
    r.summaryLines.filter ("  FAIL ".toList.isPrefixOf ·) = r.failing.map failEntry := by
  have herrors : (r.errors.map errorEntry).filter ("  FAIL ".toList.isPrefixOf ·) = [] := by
    rw [List.filter_eq_nil_iff, List.forall_mem_map]
    exact fun _ _ => Bool.false_ne_true
  have hfailing : (r.failing.map failEntry).filter ("  FAIL ".toList.isPrefixOf ·) =
      r.failing.map failEntry := by
    rw [List.filter_eq_self, List.forall_mem_map]
    exact fun _ _ => rfl
  rw [filter_summaryLines, herrors, hfailing, List.nil_append]
  · intro b
    cases b <;> exact Bool.false_ne_true
  · exact fun _ => Bool.false_ne_true
  · exact fun _ => Bool.false_ne_true

theorem heading_prefix_iff (b : Bool) (rest : Text) :
    "Suite PASSED".toList <+: heading b ++ rest ↔ b = true := by
  cases b with
  | true =>
    have hheading : "Suite PASSED".toList = heading true := rfl
    rw [hheading]
    exact iff_of_true (List.prefix_append _ _) rfl
  | false =>
    have hfalse : "Suite PASSED".toList.isPrefixOf (heading false ++ rest) = false := rfl
    rw [← List.isPrefixOf_iff_prefix, hfalse]

/-- The summary says first whether the suite has passed. -/
theorem passed_prefix_iff (r : SuiteResult) (rest : Text) :
    "Suite PASSED".toList <+: r.summary ++ rest ↔ r.valid = true := by
  rw [summary, summaryLines_eq, Text.joinWith_cons_cons, List.append_assoc, List.append_assoc,
    heading_prefix_iff]

theorem writable_toJson (r : SuiteResult) : r.toJson.Writable := by
  have herrors : (Json.list (r.errors.map .text)).Writable := by
    refine .list (List.forall_mem_map.2 ?_)
    exact fun t _ => .text t
  have hcases : (Json.list (r.cases.map CaseResult.toJson)).Writable := by
    refine .list (List.forall_mem_map.2 ?_)
    exact fun c _ => c.writable_toJson
  refine .object ?_
  simp only [List.forall_mem_cons]
  exact ⟨.bool _, .count _, .count _, herrors, hcases, List.forall_mem_nil _⟩

end SuiteResult

namespace Note

/-- The warnings among the notes. -/
def warnings (notes : List Note) : List Note := notes.filter (·.level == .warning)

theorem warnings_ofParse (t : Text) : warnings (ofParse t) = [] := by
  rw [warnings, ofParse, List.filter_eq_nil_iff, List.forall_mem_map]
  exact fun _ _ => Bool.false_ne_true

theorem warnings_ofCase (r : CaseResult) :
    warnings (ofCase r) = if r.passed then [] else [failed r.name r.message] := by
  rw [ofCase, warnings, List.filter_append, ← warnings, warnings_ofParse, List.nil_append]
  cases r.passed <;> rfl

theorem warnings_flatMap_ofCase (rs : List CaseResult) :
    warnings (rs.flatMap ofCase) =
      (rs.filter (!·.passed)).map fun r => failed r.name r.message := by
  induction rs with
  | nil => rfl
  | cons r rs ih =>
    rw [List.flatMap_cons, warnings, List.filter_append, ← warnings, ← warnings, ih,
      warnings_ofCase]
    cases h : r.passed <;> simp [h]

end Note

/-- A check warns of each failing case, in order, and of nothing else. -/
theorem Check.warnings_ofResult (path : Text) (r : SuiteResult) :
    Note.warnings (ofResult path r).notes =
      r.failing.map fun c => .failed c.name c.message :=
  Note.warnings_flatMap_ofCase r.cases

end PrefixCalc
