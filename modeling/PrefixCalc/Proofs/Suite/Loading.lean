import PrefixCalc.Proofs.Suite.Validation
import PrefixCalc.Proofs.Suite.Verdict
import PrefixCalc.Suite.Check

/-! # Loading is all or nothing

Whatever loader reads it, a file gives a suite or one reason why it gives none, unless reading its
document ends in a fault of its own. A suite that loads has been read as a whole before the first
case is run, and under a tolerance that is not negative every case comes to a result. -/

namespace PrefixCalc
set_option autoImplicit false

/-! ## Files -/

/-- No text in the document of the file holds half of a surrogate pair. -/
def File.NoSurrogate (loader : Loader) (file : File) : Prop :=
  ∀ t n, file = .text t → loader.document t ≠ .error (.surrogate n)

namespace Suite

/-- Why a file gives no suite, where it is told in the result. -/
inductive FailsToLoad (loader : Loader) (path : Text) : File → LoadError → Prop where
  | absent : FailsToLoad loader path .absent (.notFound path)
  | malformed {t : Text} (document : loader.document t = .error .malformed) :
      FailsToLoad loader path (.text t) .malformed
  | empty {t : Text} (document : loader.document t = .ok .null) :
      FailsToLoad loader path (.text t) .empty
  | invalid {t : Text} {d : Datum} {ds : List Detail} (document : loader.document t = .ok d)
      (notNull : d ≠ .null) (undocumented : ¬ Documented loader.number d)
      (refused : Suite.ofDatum loader.number d = .error ds) :
      FailsToLoad loader path (.text t) (.invalid ds)

/-- What ends the check of a file before there is a result. -/
inductive Unreadable (loader : Loader) (path : Text) : File → CheckFault → Prop where
  | folder : Unreadable loader path .folder (.folder path)
  | undecodable {reason : Text} :
      Unreadable loader path (.undecodable reason) (.undecodable reason)
  | scalar {t : Text} {f : Yaml.ScalarFault} (document : loader.document t = .error (.scalar f)) :
      Unreadable loader path (.text t) (.scalar f)

/-- The document in a file is a suite, with the data of its cases. -/
inductive Loads (loader : Loader) : File → List Datum → Suite → Prop where
  | document {t : Text} {entries : List (Datum × Datum)} {ds : List Datum} {s : Suite}
      (document : loader.document t = .ok (.map entries))
      (documented : DocumentedRecord loader.number entries)
      (read : ReadFrom loader.number entries s)
      (list : Datum.find? entries "cases".toList = some (.list ds))
      (cases : List.Forall₂ (fun d c => Case.ofDatum loader.number d = .ok c) ds s.cases) :
      Loads loader (.text t) ds s

section Files
variable {loader : Loader} {path t : Text} {file : File} {s : Suite} {ds : List Datum} {d : Datum}

theorem ofText_of_ne_null (hd : d ≠ .null) (h : loader.document t = .ok d) :
    ofText loader t = .ok ((Suite.ofDatum loader.number d).mapError .invalid) := by
  rw [ofText, h]
  cases d <;> first | rfl | exact absurd rfl hd

theorem loads_of_ofDatum (document : loader.document t = .ok d)
    (h : Suite.ofDatum loader.number d = .ok s) : ∃ ds, Loads loader (.text t) ds s := by
  obtain ⟨entries, rfl, documented, read⟩ := ofDatum_eq_ok_iff.1 h
  obtain ⟨ds, list, cases⟩ := read.cases
  exact ⟨ds, .document document documented read list cases⟩

theorem ofFile_cases (path : Text) (noSurrogate : file.NoSurrogate loader) :
    (∃ f, Suite.ofFile loader path file = .error f ∧ Unreadable loader path file f) ∨
      (∃ e, Suite.ofFile loader path file = .ok (.error e) ∧ FailsToLoad loader path file e) ∨
      ∃ ds s, Suite.ofFile loader path file = .ok (.ok s) ∧ Loads loader file ds s := by
  cases file with
  | absent => exact .inr (.inl ⟨_, rfl, .absent⟩)
  | folder => exact .inl ⟨_, rfl, .folder⟩
  | undecodable reason => exact .inl ⟨_, rfl, .undecodable⟩
  | text t =>
    rw [Suite.ofFile]
    cases document : loader.document t with
    | error err =>
      rw [ofText, document]
      cases err with
      | malformed => exact .inr (.inl ⟨_, rfl, .malformed document⟩)
      | scalar f => exact .inl ⟨_, rfl, .scalar document⟩
      | surrogate n => exact absurd document (noSurrogate t n rfl)
    | ok d =>
      -- an empty document is told as such before anything is read from it
      by_cases hd : d = .null
      · subst hd
        rw [ofText, document]
        exact .inr (.inl ⟨_, rfl, .empty document⟩)
      · rw [ofText_of_ne_null hd document]
        cases hread : Suite.ofDatum loader.number d with
        | error details =>
          have hundocumented : ¬ Documented loader.number d := by
            rw [← exists_ofDatum_eq_iff, hread]
            simp
          exact .inr (.inl ⟨_, rfl, .invalid document hd hundocumented hread⟩)
        | ok s =>
          obtain ⟨ds, hloads⟩ := loads_of_ofDatum document hread
          exact .inr (.inr ⟨ds, s, rfl, hloads⟩)

theorem FailsToLoad.ofFile_eq {e : LoadError} (h : FailsToLoad loader path file e) :
    Suite.ofFile loader path file = .ok (.error e) := by
  cases h with
  | absent => rfl
  | malformed document => rw [Suite.ofFile, ofText, document]
  | empty document => rw [Suite.ofFile, ofText, document]
  | invalid document notNull _ refused =>
    rw [Suite.ofFile, ofText_of_ne_null notNull document, refused]
    rfl

theorem Loads.ofFile_eq (h : Loads loader file ds s) (path : Text) :
    Suite.ofFile loader path file = .ok (.ok s) := by
  cases h with
  | document document documented read _ _ =>
    have hread := ofDatum_eq_ok_iff.2 ⟨_, rfl, documented, read⟩
    rw [Suite.ofFile, ofText_of_ne_null (by simp) document, hread]
    rfl

theorem ReadFrom.tolerance_nonneg {rule : NumberRule} {entries : List (Datum × Datum)}
    (h : s.ReadFrom rule entries) (hdocumented : DocumentedRecord rule entries) :
    s.tolerance.lt .zero = false := by
  cases hfind : Datum.find? entries "tolerance".toList with
  | none =>
    rw [h.default hfind]
    decide +kernel
  | some d =>
    obtain ⟨v, hv, _, hnonneg⟩ := hdocumented.tolerance d hfind
    cases hv.symm.trans (h.tolerance d hfind)
    exact hnonneg

theorem Loads.cases_ne_nil (h : Loads loader file ds s) : s.cases ≠ [] := by
  cases h with
  | document _ documented _ list cases =>
    obtain ⟨ds', hds', hne, _⟩ := documented.cases
    cases list.symm.trans hds'
    intro hnil
    rw [hnil] at cases
    cases cases
    exact hne rfl

/-- A suite that loads runs under its own tolerance and under every other that is not negative. -/
theorem Loads.exists_run {override : Option Binary64} (h : Loads loader file ds s)
    (nonneg : ∀ v, override = some v → v.lt .zero = false) :
    ∃ rs, s.run override = .ok ⟨rs, []⟩ := by
  apply exists_run_eq
  rintro ⟨hneg, _⟩
  have heffective : (s.effectiveTolerance override).lt .zero = false := by
    cases override with
    | some v => exact nonneg v rfl
    | none =>
      cases h with
      | document _ documented read _ _ => exact read.tolerance_nonneg documented
  rw [heffective] at hneg
  cases hneg

end Files
end Suite

namespace Check

/-- Reading a document ends in a fault, or the result tells why there is no suite, or all cases
of the suite are run. -/
theorem ofFile_cases {loader : Loader} (path : Text) {file : File} {override : Option Binary64}
    (noSurrogate : file.NoSurrogate loader)
    (nonneg : ∀ v, override = some v → v.lt .zero = false) :
    (∃ f, Check.ofFile loader path file override = .error f ∧
      Suite.Unreadable loader path.normalPath file f) ∨
    (∃ e, Check.ofFile loader path file override = .ok (ofLoadError e) ∧
      Suite.FailsToLoad loader path.normalPath file e) ∨
    ∃ ds s rs, Check.ofFile loader path file override = .ok (ofResult path.normalPath ⟨rs, []⟩) ∧
      Suite.Loads loader file ds s ∧ s.run override = .ok ⟨rs, []⟩ := by
  unfold Check.ofFile
  rcases Suite.ofFile_cases path.normalPath noSurrogate with
    ⟨f, hfile, hunreadable⟩ | ⟨e, hfile, hfails⟩ | ⟨ds, s, hfile, hloads⟩
  · rw [hfile]
    exact .inl ⟨f, rfl, hunreadable⟩
  · rw [hfile]
    exact .inr (.inl ⟨e, rfl, hfails⟩)
  · obtain ⟨rs, hrun⟩ := hloads.exists_run nonneg
    rw [hfile]
    dsimp only
    rw [hrun]
    exact .inr (.inr ⟨ds, s, rs, rfl, hloads, hrun⟩)

end Check

/-! ## Results -/

/-- The file can be read, and what the loader says of its text is what the text holds, or that it
is malformed. -/
structure File.Readable (loader : Loader) (file : File) : Prop where
  notFolder : file ≠ .folder
  decodable : ∀ reason, file ≠ .undecodable reason
  document : ∀ t, file = .text t →
    (∃ d, loader.document t = .ok d) ∨ loader.document t = .error .malformed

section Readable
variable {loader : Loader} {file : File}

theorem File.Readable.document_ne_error {t : Text} {err : Yaml.Error} (h : file.Readable loader)
    (hfile : file = .text t) (herr : err ≠ .malformed) : loader.document t ≠ .error err := by
  intro hfault
  rcases h.document t hfile with ⟨d, hd⟩ | hmalformed
  · cases hfault.symm.trans hd
  · exact herr (Except.error.inj (hfault.symm.trans hmalformed))

theorem File.Readable.noSurrogate (h : file.Readable loader) : file.NoSurrogate loader := by
  intro t n hfile
  exact h.document_ne_error hfile (by simp)

theorem File.Readable.not_unreadable {path : Text} {f : CheckFault} (h : file.Readable loader) :
    ¬ Suite.Unreadable loader path file f := by
  rintro (_ | _ | document)
  · exact h.notFolder rfl
  · exact h.decodable _ rfl
  · exact h.document_ne_error rfl (by simp) document

theorem File.readable_text {t : Text} (h : (loader.document t).toBool = true) :
    (File.text t).Readable loader where
  notFolder := by simp
  decodable := by simp
  document := by
    rintro t' ⟨rfl⟩
    cases hd : loader.document t with
    | ok d => exact .inl ⟨d, rfl⟩
    | error err =>
      rw [hd] at h
      cases h

end Readable

namespace Case
variable {c : Case} {e : Expr} {tolerance : Binary64} {r : CaseResult}

/-- The case comes to the result, with the value that its expression evaluates to. -/
structure RunsTo (c : Case) (tolerance : Binary64) (r : CaseResult) : Prop where
  run : c.run tolerance = .ok r
  value : c.expression.length ≤ twoPow 1023 →
    ∀ e, parse c.expression = .ok e → e.eval? c.arguments = r.actual

theorem actual_of_run (hparse : parse c.expression = .ok e) (h : c.run tolerance = .ok r) :
    r.actual = some (e.eval c.arguments) := by
  rw [run_of_parse_ok hparse, evaluated, map_eq_ok_iff] at h
  obtain ⟨_, _, rfl⟩ := h
  rfl

theorem runsTo_of_run (h : c.run tolerance = .ok r) : c.RunsTo tolerance r where
  run := h
  value := by
    intro hlength e hparse
    rw [actual_of_run hparse h]
    refine Expr.eval?_eq_some_eval (parse_eq_ok_iff.1 hparse).wellFormed ?_ _
    intro op es hmem
    apply Binary64.isFinite_ofNat
    exact Nat.lt_of_lt_of_le (length_operands_lt_of_parse hparse hmem) hlength

end Case

/-- The check of a file ends in a result, whatever the loader reads from its text and takes for
numbers. Either the result has one error and no cases, and the file has no suite; or it has no
errors and is that of the run of the suite, with a result for each case in the order of the
document. One case that is not as documented, and nothing is run. -/
theorem loading_all_or_nothing (loader : Loader) (path : Text) {file : File}
    (override : Option Binary64) (readable : file.Readable loader)
    (nonneg : ∀ v, override = some v → v.lt .zero = false) :
    ∃ check, Check.ofFile loader path file override = .ok check ∧
      ((∃ e, Suite.FailsToLoad loader path.normalPath file e ∧
          check.result = ⟨[], [e.message]⟩ ∧ check.result.valid = false ∧ check.notes = []) ∨
        ∃ ds s, Suite.Loads loader file ds s ∧ check.result.errors = [] ∧
          check.result.cases ≠ [] ∧ s.run override = .ok check.result ∧
          List.Forall₂ (Case.RunsTo · (override.getD s.tolerance)) s.cases check.result.cases) ∧
      ∀ t entries ds d, file = .text t → loader.document t = .ok (.map entries) →
        Datum.find? entries "cases".toList = some (.list ds) → d ∈ ds →
          ¬ Case.Documented loader.number d → check.result.cases = [] ∧ check.notes = [] := by
  rcases Check.ofFile_cases path readable.noSurrogate nonneg with
    ⟨f, _, hunreadable⟩ | ⟨e, hcheck, hfails⟩ | ⟨ds, s, rs, hcheck, hloads, hrun⟩
  · exact absurd hunreadable readable.not_unreadable
  · refine ⟨_, hcheck, .inl ⟨e, hfails, rfl, rfl, rfl⟩, ?_⟩
    intro t entries ds d _ _ _ _ _
    exact ⟨rfl, rfl⟩
  · have hcases := Suite.run_eq_ok_iff.1 hrun
    have hne : rs ≠ [] := by
      intro hnil
      have hlength := hcases.length_eq
      rw [hnil, List.length_nil, List.length_eq_zero_iff] at hlength
      exact hloads.cases_ne_nil hlength
    refine ⟨_, hcheck, .inr ⟨ds, s, hloads, rfl, hne, hrun, ?_⟩, ?_⟩
    · exact hcases.imp fun _ _ => Case.runsTo_of_run
    · intro t entries ds' d hfile document list hd hundocumented
      subst hfile
      -- the document that was loaded is this one, and each of its cases was read
      cases hloads with
      | document document' _ _ list' cases =>
        cases document.symm.trans document'
        cases list.symm.trans list'
        have hread := exists_forall₂_iff.1 ⟨_, cases⟩ d hd
        exact absurd (Case.exists_ofDatum_eq_iff.1 hread) hundocumented

/-- Behind a second case without an expression the first one is not run any more. -/
theorem second_case_refused_with_first :
    let path : Text := "suite.yaml".toList
    let one : File := .text "{cases: [{expression: x}]}".toList
    let two : File := .text "{cases: [{expression: x}, {expected: no}]}".toList
    one.Readable .standard ∧ two.Readable .standard ∧ ∃ check check',
      Check.ofFile .standard path one (some .zero) = .ok check ∧
      Check.ofFile .standard path two (some .zero) = .ok check' ∧
      check.result.errors = [] ∧ check.result.cases.length = 1 ∧
      check'.result.errors.length = 1 ∧ check'.result.cases = [] := by
  intro path one two
  have hone : one.Readable .standard := File.readable_text (by decide +kernel)
  have htwo : two.Readable .standard := File.readable_text (by decide +kernel)
  obtain ⟨v, hsuite⟩ : ∃ v, Suite.ofFile .standard path.normalPath one =
      .ok (.ok ⟨v, [⟨none, ['x'], ⟨.zero, .zero, .zero⟩, none, none⟩]⟩) :=
    ⟨Suite.defaultTolerance, by decide +kernel⟩
  have hrefused : Suite.ofFile .standard path.normalPath two = .ok (.error (.invalid
      [⟨[.key "cases".toList, .index 1, .key "expression".toList], .missing⟩])) := by
    decide +kernel
  have hzero : ∀ v, some Binary64.zero = some v → v.lt .zero = false := by
    intro v hv
    cases hv
    decide
  obtain ⟨check, hcheck, hends, _⟩ :=
    loading_all_or_nothing .standard path (some .zero) hone hzero
  obtain ⟨check', hcheck', hends', _⟩ :=
    loading_all_or_nothing .standard path (some .zero) htwo hzero
  refine ⟨hone, htwo, check, check', hcheck, hcheck', ?_⟩
  rcases hends with ⟨e, hfails, _⟩ | ⟨ds, s, hloads, herrors, _, _, hcases⟩
  · cases hsuite.symm.trans hfails.ofFile_eq
  · rcases hends' with ⟨e', _, hresult, _⟩ | ⟨ds', s', hloads', _⟩
    · cases hsuite.symm.trans (hloads.ofFile_eq path.normalPath)
      rw [hresult]
      exact ⟨herrors, hcases.length_eq.symm, rfl, rfl⟩
    · cases hrefused.symm.trans (hloads'.ofFile_eq path.normalPath)

end PrefixCalc
