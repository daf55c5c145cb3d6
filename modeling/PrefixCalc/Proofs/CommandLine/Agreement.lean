import PrefixCalc.CommandLine.Run
import PrefixCalc.Proofs.Suite.Report

/-! # All reports of a check agree

A check is reported by its exit status, as a summary or as a structured value, and by warnings on
the way. They are computed apart from each other and all say the same of every file. -/

namespace PrefixCalc.CommandLine
set_option autoImplicit false

/-! ## Arguments -/

section Arguments
variable {path : Text} {switches : List Switch} {ts : List Text}

theorem rolesOf_cons_of_head? (h : path.head? ≠ some '-') :
    rolesOf switches (path :: ts) = (rolesOf switches ts).map ((path, .value) :: ·) := by
  have hne : path ≠ "--".toList := by
    rintro rfl
    exact h rfl
  rw [rolesOf, if_neg hne, Role.ofArgument, if_pos (.inl h)]

/-- The arguments that ask for a check with a summary, unless the path looks like a switch. -/
theorem ofArguments_check (h : path.head? ≠ some '-') :
    Request.ofArguments ["check".toList, path] = .ok (.run false (.check path none false)) := by
  have hname : ("check".toList : Text).head? ≠ some '-' := by decide
  have hread : readArguments CommandName.check.switches [path] = .ok ⟨some path, [], [], []⟩ := by
    rw [readArguments, rolesOf_cons_of_head? h]
    rfl
  rw [Request.ofArguments, rolesOf_cons_of_head? hname, rolesOf_cons_of_head? h]
  change Request.ofCommand _ .check [path] = _
  rw [Request.ofCommand, hread]
  rfl

theorem ofArguments_check_json (h : path.head? ≠ some '-') :
    Request.ofArguments ["check".toList, path, "--json".toList] =
      .ok (.run false (.check path none true)) := by
  have hname : ("check".toList : Text).head? ≠ some '-' := by decide
  have hlast : rolesOf Request.switches ["--json".toList] =
      .ok [("--json".toList, .unknown)] := by
    decide +kernel
  have hjson : rolesOf CommandName.check.switches ["--json".toList] =
      .ok [("--json".toList, .switch .json "--json".toList none)] := by
    decide +kernel
  have hread : readArguments CommandName.check.switches [path, "--json".toList] =
      .ok ⟨some path, [.json], [], []⟩ := by
    rw [readArguments, rolesOf_cons_of_head? h, hjson]
    rfl
  rw [Request.ofArguments, rolesOf_cons_of_head? hname, rolesOf_cons_of_head? h, hlast]
  change Request.ofCommand _ .check [path, "--json".toList] = _
  rw [Request.ofCommand, hread]
  rfl

end Arguments

/-! ## Outcomes -/

/-- What the outcomes of a check with a summary and with a structured value tell of its
result. -/
structure Agree (verbose : Bool) (check : Check) (plain json : Outcome) : Prop where
  status : json.status = plain.status
  success : plain.status = 0 ↔
    check.result.errors = [] ∧ ∀ r ∈ check.result.cases, r.passed = true
  failure : plain.status ≠ 0 → plain.status = 1
  heading : "Suite PASSED".toList <+: plain.output ↔ plain.status = 0
  summary : plain.output = line (Text.joinWith ['\n'] check.result.summaryLines)
  errorEntries : check.result.summaryLines.filter ("  Error: ".toList.isPrefixOf ·) =
    check.result.errors.map SuiteResult.errorEntry
  failEntries : check.result.summaryLines.filter ("  FAIL ".toList.isPrefixOf ·) =
    check.result.failing.map SuiteResult.failEntry
  warnings : Note.warnings check.notes =
    check.result.failing.map fun r => .failed r.name r.message
  told : plain.errors = notesText verbose check.notes ∧ json.errors = plain.errors
  quiet : verbose = false → plain.errors =
    check.result.failing.flatMap fun r => line (Note.failed r.name r.message).toText
  written : ∃ t, check.result.toJson.write? 0 = some t ∧ json.output = line t
  fields : check.result.toJson = .object
    [("valid".toList, .bool (plain.status == 0)), ("passed".toList, .count check.result.passed),
      ("failed".toList, .count check.result.failed),
      ("errors".toList, .list (check.result.errors.map .text)),
      ("cases".toList, .list (check.result.cases.map CaseResult.toJson))]
  counted : check.result.passed + check.result.failed = check.result.cases.length

section Check
variable {check : Check} {verbose : Bool}

theorem status_showCheck (asJson : Bool) :
    (showCheck verbose asJson check).status = if check.result.valid then 0 else 1 := rfl

theorem status_eq_zero_iff (asJson : Bool) :
    (showCheck verbose asJson check).status = 0 ↔ check.result.valid = true := by
  rw [status_showCheck]
  cases check.result.valid <;> simp

theorem output_showCheck_json :
    ∃ t, check.result.toJson.write? 0 = some t ∧
      (showCheck verbose true check).output = line t := by
  obtain ⟨t, ht⟩ := (Json.exists_write?_iff _ 0).2 check.result.writable_toJson
  refine ⟨t, ht, ?_⟩
  rw [showCheck, resultText, if_pos rfl, ht, Option.getD_some]

theorem notesText_of_warnings
    (h : Note.warnings check.notes = check.result.failing.map fun r => .failed r.name r.message) :
    notesText false check.notes =
      check.result.failing.flatMap fun r => line (Note.failed r.name r.message).toText := by
  have hquiet : notesText false check.notes =
      (Note.warnings check.notes).flatMap fun n => line n.toText := rfl
  rw [hquiet, h, List.flatMap_map]

theorem agree_of_warnings
    (h : Note.warnings check.notes = check.result.failing.map fun r => .failed r.name r.message) :
    Agree verbose check (showCheck verbose false check) (showCheck verbose true check) where
  status := rfl
  success := by rw [status_eq_zero_iff, SuiteResult.valid_iff]
  failure := by
    rw [status_showCheck]
    cases check.result.valid <;> simp
  heading := by
    rw [status_eq_zero_iff]
    exact check.result.passed_prefix_iff ['\n']
  summary := rfl
  errorEntries := check.result.errorEntries_eq
  failEntries := check.result.failEntries_eq
  warnings := h
  told := ⟨rfl, rfl⟩
  quiet := by
    rintro rfl
    exact notesText_of_warnings h
  written := output_showCheck_json
  fields := by
    have hvalid : ((showCheck verbose false check).status == 0) = check.result.valid := by
      rw [status_showCheck]
      cases check.result.valid <;> rfl
    rw [hvalid]
    rfl
  counted := check.result.passed_add_failed

end Check

/-- For every file and loader, and every tolerance that is not negative, a check with a summary and
one with a structured value agree on all that they tell. Where the file cannot be read they agree
as well, and tell just that. Half of a surrogate pair cannot be printed and is left out. -/
theorem check_reports_agree (loader : Loader) (files : Text → File) (verbose : Bool) (path : Text)
    (override : Option Binary64) (noSurrogate : (files path.normalPath).NoSurrogate loader)
    (nonneg : ∀ v, override = some v → v.lt .zero = false) :
    let plain := Outcome.ofRun ((Command.check path override false).run loader files verbose)
    let json := Outcome.ofRun ((Command.check path override true).run loader files verbose)
    ((∃ check, Check.ofFile loader path (files path.normalPath) override = .ok check ∧
        Agree verbose check plain json) ∨
      ∃ f, Suite.Unreadable loader path.normalPath (files path.normalPath) f ∧
        plain = ⟨1, [], line f.message⟩ ∧ json = plain) ∧
    (path.head? ≠ some '-' →
      Request.ofArguments ["check".toList, path] = .ok (.run false (.check path none false)) ∧
      Request.ofArguments ["check".toList, path, "--json".toList] =
        .ok (.run false (.check path none true))) := by
  refine ⟨?_, fun hpath => ⟨ofArguments_check hpath, ofArguments_check_json hpath⟩⟩
  simp only [Command.run]
  -- both forms come from one check, which is the same function of the file
  rcases Check.ofFile_cases path noSurrogate nonneg with
    ⟨f, hcheck, hunreadable⟩ | ⟨e, hcheck, _⟩ | ⟨_, _, rs, hcheck, _, _⟩
  · rw [hcheck]
    exact .inr ⟨f, hunreadable, rfl, rfl⟩
  · rw [hcheck]
    exact .inl ⟨_, rfl, agree_of_warnings rfl⟩
  · rw [hcheck]
    exact .inl ⟨_, rfl, agree_of_warnings (Check.warnings_ofResult _ _)⟩

/-- The second of two cases fails in each report. -/
theorem failing_case_in_each_report :
    let files : Text → File :=
      fun _ => .text "{cases: [{expression: x}, {expression: y, expected: 1}]}".toList
    let path : Text := "suite.yaml".toList
    let plain := Outcome.ofRun ((Command.check path (some .zero) false).run .standard files false)
    let json := Outcome.ofRun ((Command.check path (some .zero) true).run .standard files false)
    (files path.normalPath).NoSurrogate .standard ∧ ∃ check,
      Check.ofFile .standard path (files path.normalPath) (some .zero) = .ok check ∧
      check.result.errors = [] ∧ check.result.cases.map (·.passed) = [true, false] ∧
      plain.status = 1 ∧ json.status = 1 ∧ (Note.warnings check.notes).length = 1 ∧
      ∃ t, json.output = line t := by
  intro files path plain json
  have hzero : ∀ v, some Binary64.zero = some v → v.lt .zero = false := by
    intro v hv
    cases hv
    decide
  have hreadable : (files path.normalPath).Readable .standard :=
    File.readable_text (by decide +kernel)
  have hresult : (Check.ofFile .standard path (files path.normalPath) (some .zero)).map
      (fun check => (check.result.errors, check.result.cases.map (·.passed),
        check.result.failing.length)) = .ok ([], [true, false], 1) := by
    decide +kernel
  rcases (check_reports_agree .standard files false path (some .zero) hreadable.noSurrogate
      hzero).1 with
    ⟨check, hcheck, hagree⟩ | ⟨f, hunreadable, _⟩
  · rw [hcheck] at hresult
    obtain ⟨herrors, hcases, hfailing⟩ : check.result.errors = [] ∧
        check.result.cases.map (·.passed) = [true, false] ∧ check.result.failing.length = 1 := by
      simpa [Except.map] using hresult
    have hstatus : plain.status = 1 := by
      apply hagree.failure
      rw [ne_eq, hagree.success]
      rintro ⟨_, hpassed⟩
      have hall : ∀ b ∈ check.result.cases.map (·.passed), b = true :=
        List.forall_mem_map.2 hpassed
      rw [hcases] at hall
      simp at hall
    obtain ⟨t, _, ht⟩ := hagree.written
    refine ⟨hreadable.noSurrogate, check, hcheck, herrors, hcases, hstatus,
      hagree.status.trans hstatus, ?_, t, ht⟩
    rw [hagree.warnings, List.length_map, hfailing]
  · exact absurd hunreadable hreadable.not_unreadable

end PrefixCalc.CommandLine
