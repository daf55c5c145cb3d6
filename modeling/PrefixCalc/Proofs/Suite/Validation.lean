import PrefixCalc.Proofs.Number.Order
import PrefixCalc.Proofs.Suite.Record
import PrefixCalc.Proofs.Suite.Reordering

/-! # Which data are suites

`Case.Documented` and `Suite.Documented` say of a datum what has to be in it for it to be a case
or a suite, field by field and without reading it. Reading accepts these data and no others, and
`ReadFrom` says what it takes from each field. -/

namespace PrefixCalc
set_option autoImplicit false

theorem Point.eq_of_get {p q : Point} (h : ∀ i, p.get i = q.get i) : p = q := by
  cases p
  cases q
  rw [Point.mk.injEq]
  exact ⟨h .x, h .y, h .z⟩

namespace Case

/-! ## Bindings -/

section Bindings
variable {rule : NumberRule}

theorem bindingList_eq_ok_iff {es : List (Datum × Datum)} {bs : List (Text × Binary64)} :
    bindingList rule es = .ok bs ↔ List.Forall₂ (fun e b => binding rule e = .ok b) es bs := by
  induction es generalizing bs with
  | nil => simp [bindingList, eq_comm]
  | cons e es ih =>
    simp only [List.forall₂_cons_left_iff, ← ih]
    rw [bindingList]
    cases binding rule e with
    | error ds => simp
    | ok b => cases bindingList rule es <;> simp [eq_comm]

theorem mem_unknownNames {bs : List (Text × Binary64)} {t : Text} :
    t ∈ unknownNames bs ↔ (∃ b ∈ bs, b.1 = t) ∧ Variable.ofName? t = none := by
  unfold unknownNames
  rw [List.mem_mergeSort, List.mem_eraseDups, List.mem_filter, List.mem_map,
    Option.isNone_iff_eq_none]

theorem unknownNames_eq_nil_iff {bs : List (Text × Binary64)} :
    unknownNames bs = [] ↔ ∀ b ∈ bs, ∃ i : Variable, b.1 = i.name := by
  rw [List.eq_nil_iff_forall_not_mem]
  simp only [mem_unknownNames]
  constructor
  · intro h b hb
    cases hi : Variable.ofName? b.1 with
    | some i => exact ⟨i, (Variable.name_of_ofName? hi).symm⟩
    | none => exact absurd ⟨⟨b, hb, rfl⟩, hi⟩ (h b.1)
  · rintro h _ ⟨⟨b, hb, rfl⟩, hnone⟩
    obtain ⟨i, hi⟩ := h b hb
    rw [hi, Variable.ofName?_name] at hnone
    cases hnone

theorem errorKind_eq_ok_iff {d : Datum} {k : ErrorKind} :
    errorKind d = .ok k ↔ d = .text k.name := by
  unfold errorKind
  constructor
  · intro h
    split at h
    · cases h
    · next name hname =>
      split at h
      · next k' hk =>
        cases h
        rw [Record.string_eq_ok_iff.1 hname, ErrorKind.name_of_ofName? hk]
      · cases h
  · rintro rfl
    simp [Record.string, ErrorKind.ofName?_name]

/-- What may be given as the bindings: nothing, or a map from variables to numbers. -/
def BindsVariables (rule : NumberRule) (o : Option Datum) : Prop :=
  ∀ d, o = some d → ∃ es, d = .map es ∧ (∀ e ∈ es, ∃ i : Variable, e.1 = .text i.name) ∧
    ∀ e ∈ es, ∃ v, rule e.2 = .ok v

theorem exists_bindingList_eq_iff {es : List (Datum × Datum)} :
    (∃ bs, bindingList rule es = .ok bs ∧ unknownNames bs = []) ↔
      (∀ e ∈ es, ∃ i : Variable, e.1 = .text i.name) ∧ ∀ e ∈ es, ∃ v, rule e.2 = .ok v := by
  simp only [bindingList_eq_ok_iff, unknownNames_eq_nil_iff]
  -- the names are looked at only once every entry is read, and are the keys then
  have hnames : ∀ {bs : List (Text × Binary64)},
      List.Forall₂ (fun e b => binding rule e = .ok b) es bs →
        ((∀ e ∈ es, ∃ i : Variable, e.1 = .text i.name) ↔
          ∀ b ∈ bs, ∃ i : Variable, b.1 = i.name) := by
    intro bs h
    apply forall_mem_iff_of_forall₂ h
    intro e b hb
    simp [(binding_eq_ok_iff.1 hb).1]
  constructor
  · rintro ⟨bs, hread, hvariables⟩
    refine ⟨(hnames hread).2 hvariables, ?_⟩
    intro e he
    obtain ⟨b, hb⟩ := exists_forall₂_iff.1 ⟨bs, hread⟩ e he
    exact ⟨b.2, (binding_eq_ok_iff.1 hb).2⟩
  · rintro ⟨hkeys, hvalues⟩
    obtain ⟨bs, hread⟩ : ∃ bs, List.Forall₂ (fun e b => binding rule e = .ok b) es bs := by
      rw [exists_forall₂_iff]
      intro e he
      obtain ⟨i, hi⟩ := hkeys e he
      obtain ⟨v, hv⟩ := hvalues e he
      exact ⟨(i.name, v), binding_eq_ok_iff.2 ⟨hi, hv⟩⟩
    exact ⟨bs, hread, (hnames hread).1 hkeys⟩

theorem exists_bindings_eq_iff {o : Option Datum} :
    (∃ p, bindings rule o = .ok p) ↔ BindsVariables rule o := by
  cases o with
  | none => exact iff_of_true ⟨_, rfl⟩ (by simp [BindsVariables])
  | some d =>
    cases d with
    | map es =>
      simp only [BindsVariables, Option.some.injEq, forall_eq', Datum.map.injEq, exists_eq_left',
        ← exists_bindingList_eq_iff, bindings]
      cases bindingList rule es with
      | error ds => simp
      | ok bs => by_cases h : unknownNames bs = [] <;> simp [h, Record.refuse]
    | _ => simp [BindsVariables, bindings, Record.refuse]

/-- What a variable is bound to by a record: its number in it, or zero. -/
def Binds (rule : NumberRule) (entries : List (Datum × Datum)) (i : Variable) (v : Binary64) :
    Prop :=
  (∀ d, boundDatum? entries i = some d → rule d = .ok v) ∧
    (boundDatum? entries i = none → v = .zero)

theorem Binds.unique {entries : List (Datum × Datum)} {i : Variable} {v w : Binary64}
    (hv : Binds rule entries i v) (hw : Binds rule entries i w) : v = w := by
  cases h : boundDatum? entries i with
  | none => rw [hv.2 h, hw.2 h]
  | some d => exact Except.ok.inj ((hv.1 d h).symm.trans (hw.1 d h))

theorem bindings_eq_ok_iff {entries : List (Datum × Datum)} {p : Point} :
    bindings rule (Datum.find? entries "bindings".toList) = .ok p ↔
      BindsVariables rule (Datum.find? entries "bindings".toList) ∧
        ∀ i, Binds rule entries i (p.get i) := by
  constructor
  · intro h
    exact ⟨exists_bindings_eq_iff.1 ⟨p, h⟩, fun i => get_of_bindings h i⟩
  · rintro ⟨hvariables, hbinds⟩
    obtain ⟨q, hq⟩ := exists_bindings_eq_iff.2 hvariables
    have hpq : p = q := Point.eq_of_get fun i => (hbinds i).unique (get_of_bindings hq i)
    rw [hq, hpq]

end Bindings

/-! ## Cases -/

/-- A record of a case: it has the keys of a case and no others, an expression, and in the other
fields nothing or what belongs there. -/
structure DocumentedRecord (rule : NumberRule) (entries : List (Datum × Datum)) : Prop where
  keys : ∀ e ∈ entries, ∃ t ∈ fieldNames, e.1 = .text t
  name : ∀ d, Datum.find? entries "name".toList = some d → d = .null ∨ ∃ t, d = .text t
  expression : ∃ t, Datum.find? entries "expression".toList = some (.text t)
  bindings : BindsVariables rule (Datum.find? entries "bindings".toList)
  expected : ∀ d, Datum.find? entries "expected".toList = some d →
    d = .null ∨ ∃ v, rule d = .ok v
  error : ∀ d, Datum.find? entries "error".toList = some d →
    d = .null ∨ ∃ k : ErrorKind, d = .text k.name
  single : ∀ d d', Datum.find? entries "expected".toList = some d →
    Datum.find? entries "error".toList = some d' → d = .null ∨ d' = .null

def Documented (rule : NumberRule) (d : Datum) : Prop :=
  ∃ entries, d = .map entries ∧ DocumentedRecord rule entries

/-- What a case takes from its record. -/
structure ReadFrom (rule : NumberRule) (entries : List (Datum × Datum)) (c : Case) : Prop where
  name : Record.Holds (fun d t => d = .text t) (Datum.find? entries "name".toList) c.name
  expression : Datum.find? entries "expression".toList = some (.text c.expression)
  arguments : ∀ i, Binds rule entries i (c.arguments.get i)
  expected : Record.Holds (fun d v => rule d = .ok v) (Datum.find? entries "expected".toList)
    c.expected
  error : Record.Holds (fun d k => d = .text k.name) (Datum.find? entries "error".toList) c.error

section Cases
variable {rule : NumberRule} {entries : List (Datum × Datum)} {c : Case} {d : Datum}

theorem single_iff (hexpected : Record.Holds (fun d v => rule d = .ok v)
      (Datum.find? entries "expected".toList) c.expected)
    (herror : Record.Holds (fun d k => d = .text k.name)
      (Datum.find? entries "error".toList) c.error) :
    (c.expected.isSome && c.error.isSome) = false ↔
      ∀ d d', Datum.find? entries "expected".toList = some d →
        Datum.find? entries "error".toList = some d' → d = .null ∨ d' = .null := by
  have hnone : (c.expected.isSome && c.error.isSome) = false ↔
      c.expected = none ∨ c.error = none := by
    rw [Bool.and_eq_false_iff, Option.isSome_eq_false_iff, Option.isSome_eq_false_iff,
      Option.isNone_iff_eq_none, Option.isNone_iff_eq_none]
  rw [hnone, hexpected.eq_none_iff, herror.eq_none_iff]
  constructor
  · rintro (h | h) d d' hd hd'
    · exact .inl (h d hd)
    · exact .inr (h d' hd')
  · intro h
    by_cases hall : ∀ d, Datum.find? entries "expected".toList = some d → d = .null
    · exact .inl hall
    · refine .inr ?_
      intro d' hd'
      obtain ⟨d, hd, hne⟩ := by simpa using hall
      exact (h d d' hd hd').resolve_left hne

theorem ofEntries_eq_ok_iff_readFrom :
    ofEntries rule entries = .ok c ↔ DocumentedRecord rule entries ∧ ReadFrom rule entries c := by
  simp only [ofEntries_eq_ok_iff, Record.optional_eq_ok_iff, Record.required_eq_ok_iff,
    Record.string_eq_ok_iff, Record.number_eq_ok_iff, errorKind_eq_ok_iff, bindings_eq_ok_iff,
    Record.unknownKeys_eq_nil_iff]
  constructor
  · rintro ⟨hname, ⟨_, hexpression, rfl⟩, ⟨hvariables, harguments⟩, hexpected, herror, hkeys,
      hsingle⟩
    exact ⟨{
      keys := hkeys
      name := Record.exists_holds_iff.1 ⟨_, hname⟩
      expression := ⟨_, hexpression⟩
      bindings := hvariables
      expected := Record.exists_holds_iff.1 ⟨_, hexpected⟩
      error := Record.exists_holds_iff.1 ⟨_, herror⟩
      single := (single_iff hexpected herror).1 hsingle },
      ⟨hname, hexpression, harguments, hexpected, herror⟩⟩
  · rintro ⟨hdocumented, hread⟩
    exact ⟨hread.name, ⟨_, hread.expression, rfl⟩, ⟨hdocumented.bindings, hread.arguments⟩,
      hread.expected, hread.error, hdocumented.keys,
      (single_iff hread.expected hread.error).2 hdocumented.single⟩

theorem exists_readFrom (h : DocumentedRecord rule entries) : ∃ c, ReadFrom rule entries c := by
  obtain ⟨name, hname⟩ := Record.exists_holds_iff.2 h.name
  obtain ⟨expression, hexpression⟩ := h.expression
  obtain ⟨p, hp⟩ := exists_bindings_eq_iff.2 h.bindings
  obtain ⟨expected, hexpected⟩ := Record.exists_holds_iff.2 h.expected
  obtain ⟨error, herror⟩ := Record.exists_holds_iff.2 h.error
  exact ⟨⟨name, expression, p, expected, error⟩, hname, hexpression,
    (bindings_eq_ok_iff.1 hp).2, hexpected, herror⟩

theorem ofDatum_eq_ok_iff : Case.ofDatum rule d = .ok c ↔
    ∃ entries, d = .map entries ∧ DocumentedRecord rule entries ∧ ReadFrom rule entries c := by
  cases d with
  | map entries => simp [Case.ofDatum, ofEntries_eq_ok_iff_readFrom]
  | _ => simp [Case.ofDatum, Record.refuse]

theorem exists_ofDatum_eq_iff : (∃ c, Case.ofDatum rule d = .ok c) ↔ Documented rule d := by
  simp only [ofDatum_eq_ok_iff, Documented]
  constructor
  · rintro ⟨c, entries, rfl, hdocumented, _⟩
    exact ⟨entries, rfl, hdocumented⟩
  · rintro ⟨entries, rfl, hdocumented⟩
    obtain ⟨c, hread⟩ := exists_readFrom hdocumented
    exact ⟨c, entries, rfl, hdocumented, hread⟩

/-- The label is the name that is given, unless it is empty, and else the expression. -/
def LabelIn (entries : List (Datum × Datum)) (label : Text) : Prop :=
  (label ≠ [] ∧ Datum.find? entries "name".toList = some (.text label)) ∨
    ((∀ t, Datum.find? entries "name".toList = some (.text t) → t = []) ∧
      Datum.find? entries "expression".toList = some (.text label))

theorem ReadFrom.labelIn (h : ReadFrom rule entries c) : LabelIn entries c.label := by
  have hname := h.name
  have hexpression := h.expression
  unfold LabelIn label
  cases hc : c.name with
  | none =>
    rw [hc] at hname
    refine .inr ⟨?_, hexpression⟩
    intro t ht
    cases hname.eq_none_iff.1 rfl _ ht
  | some t =>
    rw [hc] at hname
    generalize Datum.find? entries "name".toList = o at hname ⊢
    cases hname with
    | given _ value =>
      subst value
      cases t with
      | nil => exact .inr ⟨by simp, hexpression⟩
      | cons ch t => exact .inl ⟨List.cons_ne_nil _ _, rfl⟩

end Cases
end Case

namespace Suite

structure DocumentedRecord (rule : NumberRule) (entries : List (Datum × Datum)) : Prop where
  keys : ∀ e ∈ entries, ∃ t ∈ fieldNames, e.1 = .text t
  tolerance : ∀ d, Datum.find? entries "tolerance".toList = some d →
    ∃ v, rule d = .ok v ∧ v.isNaN = false ∧ v.lt .zero = false
  cases : ∃ ds, Datum.find? entries "cases".toList = some (.list ds) ∧ ds ≠ [] ∧
    ∀ d ∈ ds, Case.Documented rule d

def Documented (rule : NumberRule) (d : Datum) : Prop :=
  ∃ entries, d = .map entries ∧ DocumentedRecord rule entries

/-- What a suite takes from its record. -/
structure ReadFrom (rule : NumberRule) (entries : List (Datum × Datum)) (s : Suite) : Prop where
  tolerance : ∀ d, Datum.find? entries "tolerance".toList = some d → rule d = .ok s.tolerance
  default : Datum.find? entries "tolerance".toList = none → s.tolerance = defaultTolerance
  cases : ∃ ds, Datum.find? entries "cases".toList = some (.list ds) ∧
    List.Forall₂ (fun d c => Case.ofDatum rule d = .ok c) ds s.cases

section Suites
variable {rule : NumberRule} {entries : List (Datum × Datum)} {s : Suite} {d : Datum}
  {o : Option Datum}

theorem ofEntries_eq_ok_iff :
    ofEntries rule entries = .ok s ↔
      tolerance? rule (Datum.find? entries "tolerance".toList) = .ok s.tolerance ∧
      Record.required (caseList rule) (Datum.find? entries "cases".toList) = .ok s.cases ∧
      Record.unknownKeys fieldNames entries = [] := by
  constructor
  · intro h
    unfold ofEntries Record.field at h
    dsimp only at h
    split at h
    · next htolerance hcases hunknown =>
      rw [Record.within_eq_ok_iff] at htolerance hcases
      cases h
      exact ⟨htolerance, hcases, hunknown⟩
    · cases h
  · rintro ⟨htolerance, hcases, hunknown⟩
    simp only [ofEntries, Record.field, htolerance, hcases, hunknown, Record.within,
      Except.mapError]

/-- Not-a-number is not below zero, but zero is not at most not-a-number either. -/
theorem zero_le_iff {v : Binary64} :
    Binary64.zero.le v = true ↔ v.isNaN = false ∧ v.lt .zero = false := by
  have hzero : Binary64.zero.place = 0 := (Binary64.place_of_isZero rfl).2
  rw [Binary64.le_iff, ← Bool.not_eq_true (v.lt .zero), Binary64.lt_iff, hzero]
  constructor
  · rintro ⟨_, hnum, hle⟩
    exact ⟨hnum, fun hlt => by omega⟩
  · rintro ⟨hnum, hlt⟩
    refine ⟨rfl, hnum, ?_⟩
    by_contra hneg
    exact hlt ⟨hnum, rfl, by omega⟩

theorem tolerance?_eq_ok_iff {v : Binary64} : tolerance? rule o = .ok v ↔
    (∀ d, o = some d → rule d = .ok v ∧ v.isNaN = false ∧ v.lt .zero = false) ∧
      (o = none → v = defaultTolerance) := by
  simp only [← zero_le_iff]
  cases o with
  | none =>
    constructor
    · intro h
      exact ⟨by simp, fun _ => (Except.ok.inj h).symm⟩
    · rintro ⟨_, h⟩
      exact congrArg Except.ok (h rfl).symm
  | some d =>
    have hnumber : rule d = .ok v ↔ Record.number rule d = .ok v := Record.number_eq_ok_iff.symm
    simp only [tolerance?, reduceCtorEq, false_imp_iff, and_true, Option.some.injEq, forall_eq',
      hnumber]
    cases Record.number rule d with
    | error ds => simp
    | ok w =>
      by_cases hle : Binary64.zero.le w = true
      · simp only [if_pos hle, Except.ok.injEq]
        constructor
        · rintro rfl
          exact ⟨rfl, hle⟩
        · exact And.left
      · simp only [if_neg hle, Except.ok.injEq]
        constructor
        · intro h
          cases h
        · rintro ⟨rfl, hv⟩
          exact absurd hv hle

theorem caseList_eq_ok_iff {cs : List Case} : caseList rule d = .ok cs ↔
    ∃ ds, d = .list ds ∧ ds ≠ [] ∧
      List.Forall₂ (fun d c => Case.ofDatum rule d = .ok c) ds cs := by
  cases d with
  | list ds =>
    cases ds with
    | nil => simp [caseList, Record.refuse]
    | cons d ds => simp [caseList, Record.items_eq_ok_iff]
  | _ => simp [caseList, Record.refuse]

theorem ofEntries_eq_ok_iff_readFrom :
    ofEntries rule entries = .ok s ↔ DocumentedRecord rule entries ∧ ReadFrom rule entries s := by
  simp only [ofEntries_eq_ok_iff, tolerance?_eq_ok_iff, Record.required_eq_ok_iff,
    caseList_eq_ok_iff, Record.unknownKeys_eq_nil_iff]
  constructor
  · rintro ⟨⟨hgiven, hdefault⟩, ⟨_, hcases, ds, rfl, hne, hread⟩, hkeys⟩
    have hdocumented : ∀ d ∈ ds, Case.Documented rule d := by
      intro d hd
      exact Case.exists_ofDatum_eq_iff.1 (exists_forall₂_iff.1 ⟨_, hread⟩ d hd)
    exact ⟨⟨hkeys, fun d hd => ⟨_, hgiven d hd⟩, ds, hcases, hne, hdocumented⟩,
      ⟨fun d hd => (hgiven d hd).1, hdefault, ds, hcases, hread⟩⟩
  · rintro ⟨hdocumented, hread⟩
    obtain ⟨ds, hcases, hne, _⟩ := hdocumented.cases
    obtain ⟨ds', hcases', hforall⟩ := hread.cases
    cases hcases.symm.trans hcases'
    refine ⟨⟨?_, hread.default⟩, ⟨_, hcases, ds, rfl, hne, hforall⟩, hdocumented.keys⟩
    intro d hd
    obtain ⟨v, hv, hnonneg⟩ := hdocumented.tolerance d hd
    have hs := hread.tolerance d hd
    cases hv.symm.trans hs
    exact ⟨hs, hnonneg⟩

theorem exists_readFrom (h : DocumentedRecord rule entries) : ∃ s, ReadFrom rule entries s := by
  obtain ⟨ds, hcases, _, hdocumented⟩ := h.cases
  obtain ⟨cs, hcs⟩ : ∃ cs, List.Forall₂ (fun d c => Case.ofDatum rule d = .ok c) ds cs := by
    rw [exists_forall₂_iff]
    intro d hd
    exact Case.exists_ofDatum_eq_iff.2 (hdocumented d hd)
  cases htolerance : Datum.find? entries "tolerance".toList with
  | none =>
    obtain ⟨v, hv⟩ : ∃ v, v = defaultTolerance := ⟨_, rfl⟩
    refine ⟨⟨v, cs⟩, ?_, fun _ => hv, ds, hcases, hcs⟩
    intro d hd
    cases htolerance.symm.trans hd
  | some d =>
    obtain ⟨v, hv, _⟩ := h.tolerance d htolerance
    refine ⟨⟨v, cs⟩, ?_, ?_, ds, hcases, hcs⟩
    · intro d' hd'
      cases htolerance.symm.trans hd'
      exact hv
    · intro hnone
      cases htolerance.symm.trans hnone

theorem ofDatum_eq_ok_iff : Suite.ofDatum rule d = .ok s ↔
    ∃ entries, d = .map entries ∧ DocumentedRecord rule entries ∧ ReadFrom rule entries s := by
  cases d with
  | map entries => simp [Suite.ofDatum, ofEntries_eq_ok_iff_readFrom]
  | _ => simp [Suite.ofDatum, Record.refuse]

theorem exists_ofDatum_eq_iff : (∃ s, Suite.ofDatum rule d = .ok s) ↔ Documented rule d := by
  simp only [ofDatum_eq_ok_iff, Documented]
  constructor
  · rintro ⟨s, entries, rfl, hdocumented, _⟩
    exact ⟨entries, rfl, hdocumented⟩
  · rintro ⟨entries, rfl, hdocumented⟩
    obtain ⟨s, hread⟩ := exists_readFrom hdocumented
    exact ⟨s, entries, rfl, hdocumented, hread⟩

end Suites
end Suite
end PrefixCalc
