import PrefixCalc.Proofs.Suite.Details
import PrefixCalc.Proofs.Suite.Validation

/-! # Data accepted in any order

Scalars read alike wherever they stand, and each field is looked up by its key. So data that
differ only in the order of their entries are accepted or refused alike, and what is read from
them is the same, if the rule for numbers takes nothing but scalars for numbers. -/

namespace PrefixCalc
set_option autoImplicit false

open Datum (Reordered)

namespace NumberRule
variable {rule : NumberRule}

/-- Lists and maps are no numbers, whatever they hold. -/
structure OnlyScalars (rule : NumberRule) : Prop where
  list : ∀ ds, rule (.list ds) = .error .type
  map : ∀ es, rule (.map es) = .error .type

theorem standard_onlyScalars : standard.OnlyScalars where
  list _ := rfl
  map _ := rfl

theorem OnlyScalars.eq_of_reordered (scalars : rule.OnlyScalars) {d d' : Datum}
    (h : Reordered d d') : rule d = rule d' := by
  cases h with
  | refl => rfl
  | list items => rw [scalars.list, scalars.list]
  | map distinct keys values order => rw [scalars.map, scalars.map]

end NumberRule

namespace Record

section Order
variable {α : Type} {read : Datum → Read α} {rule : NumberRule} {d d' : Datum}
  {o o' : Option Datum} {es gs : List (Datum × Datum)}

theorem string_eq_of_reordered (h : Reordered d d') : string d = string d' := by
  cases h <;> rfl

theorem number_eq_of_reordered (scalars : rule.OnlyScalars) (h : Reordered d d') :
    number rule d = number rule d' := by
  rw [number, number, scalars.eq_of_reordered h]

theorem optional_eq_of_rel (h : Option.Rel Reordered o o')
    (hread : ∀ {d d'}, Reordered d d' → read d = read d') :
    optional read o = optional read o' := by
  cases h with
  | none => rfl
  | some hd =>
    have heq := hread hd
    cases hd with
    | refl => rfl
    | list items => exact congrArg (Except.map some) heq
    | map distinct keys values order => exact congrArg (Except.map some) heq

theorem required_eq_of_rel (h : Option.Rel Reordered o o')
    (hread : ∀ {d d'}, Reordered d d' → read d = read d') :
    required read o = required read o' := by
  cases h with
  | none => rfl
  | some hd => exact hread hd

theorem unknownKeys_eq_nil_iff_of_reordered {known : List Text}
    (h : Reordered (.map es) (.map gs)) :
    unknownKeys known es = [] ↔ unknownKeys known gs = [] := by
  rw [unknownKeys_eq_nil_iff, unknownKeys_eq_nil_iff]
  exact h.forall_key_iff fun k => ∃ t ∈ known, k = .text t

end Order
end Record

namespace Case

section Order
variable {rule : NumberRule} {c : Case} {d d' : Datum} {o o' : Option Datum}
  {es gs : List (Datum × Datum)}

theorem errorKind_eq_of_reordered (h : Reordered d d') : errorKind d = errorKind d' := by
  rw [errorKind, errorKind, Record.string_eq_of_reordered h]

theorem boundDatum?_rel (h : Reordered (.map es) (.map gs)) (i : Variable) :
    Option.Rel Reordered (boundDatum? es i) (boundDatum? gs i) := by
  have hbindings := h.find? "bindings".toList
  unfold boundDatum?
  generalize Datum.find? es "bindings".toList = o at hbindings ⊢
  generalize Datum.find? gs "bindings".toList = o' at hbindings ⊢
  cases hbindings with
  | none => exact .none
  | some hd =>
    have hmap := hd
    cases hd with
    | refl => exact Reordered.rel_refl _
    | list items => exact .none
    | map distinct keys values order => exact hmap.find? i.name

variable (scalars : rule.OnlyScalars)
include scalars

theorem bindsVariables_iff_of_rel (h : Option.Rel Reordered o o') :
    BindsVariables rule o ↔ BindsVariables rule o' := by
  cases h with
  | none => exact Iff.rfl
  | some hd =>
    have hmap := hd
    cases hd with
    | refl => exact Iff.rfl
    | list items => simp [BindsVariables]
    | @map es _ gs distinct keys values order =>
      have hkeys := hmap.forall_key_iff fun k => ∃ i : Variable, k = .text i.name
      have hvalue : ∀ {d d'}, Reordered d d' →
          ((∃ v, rule d = .ok v) ↔ ∃ v, rule d' = .ok v) := by
        intro d d' hd
        rw [scalars.eq_of_reordered hd]
      simp only [BindsVariables, Option.some.injEq, forall_eq', Datum.map.injEq, exists_eq_left']
      exact and_congr hkeys (hmap.forall_value_iff hvalue)

theorem binds_iff_of_reordered {i : Variable} {v : Binary64}
    (h : Reordered (.map es) (.map gs)) : Binds rule es i v ↔ Binds rule gs i v := by
  have hbound := boundDatum?_rel h i
  unfold Binds
  generalize boundDatum? es i = o at hbound ⊢
  generalize boundDatum? gs i = o' at hbound ⊢
  cases hbound with
  | none => exact Iff.rfl
  | some hd => simp [scalars.eq_of_reordered hd]

theorem ofEntries_eq_ok_iff_of_reordered (h : Reordered (.map es) (.map gs)) :
    ofEntries rule es = .ok c ↔ ofEntries rule gs = .ok c := by
  have hname := Record.optional_eq_of_rel (h.find? "name".toList) Record.string_eq_of_reordered
  have hexpression :=
    Record.required_eq_of_rel (h.find? "expression".toList) Record.string_eq_of_reordered
  have hexpected := Record.optional_eq_of_rel (h.find? "expected".toList)
    (Record.number_eq_of_reordered scalars)
  have herror := Record.optional_eq_of_rel (h.find? "error".toList) errorKind_eq_of_reordered
  have hvariables := bindsVariables_iff_of_rel scalars (h.find? "bindings".toList)
  simp only [ofEntries_eq_ok_iff, bindings_eq_ok_iff, hname, hexpression, hexpected, herror,
    hvariables, binds_iff_of_reordered scalars h, Record.unknownKeys_eq_nil_iff_of_reordered h]

theorem ofDatum_eq_ok_iff_of_reordered (h : Reordered d d') (c : Case) :
    Case.ofDatum rule d = .ok c ↔ Case.ofDatum rule d' = .ok c := by
  have hmap := h
  cases h with
  | refl => exact Iff.rfl
  | list items => exact Iff.rfl
  | map distinct keys values order => exact ofEntries_eq_ok_iff_of_reordered scalars hmap

end Order
end Case

namespace Suite

section Order
variable {rule : NumberRule} (scalars : rule.OnlyScalars) {s : Suite} {d d' : Datum}
  {o o' : Option Datum} {es gs : List (Datum × Datum)}
include scalars

theorem tolerance?_eq_of_rel (h : Option.Rel Reordered o o') :
    tolerance? rule o = tolerance? rule o' := by
  cases h with
  | none => rfl
  | some hd => rw [tolerance?, tolerance?, Record.number_eq_of_reordered scalars hd]

theorem caseList_eq_ok_iff_of_reordered {cs : List Case} (h : Reordered d d') :
    caseList rule d = .ok cs ↔ caseList rule d' = .ok cs := by
  cases h with
  | refl => exact Iff.rfl
  | @list ds ds' items =>
    have hnil : ds = [] ↔ ds' = [] := by
      rw [← List.length_eq_zero_iff, items.length_eq, List.length_eq_zero_iff]
    simp only [caseList_eq_ok_iff, Datum.list.injEq, exists_eq_left', ne_eq, hnil,
      forall₂_iff_of_forall₂ items (Case.ofDatum_eq_ok_iff_of_reordered scalars)]
  | map distinct keys values order => exact Iff.rfl

theorem required_caseList_iff_of_rel {cs : List Case} (h : Option.Rel Reordered o o') :
    Record.required (caseList rule) o = .ok cs ↔ Record.required (caseList rule) o' = .ok cs := by
  cases h with
  | none => exact Iff.rfl
  | some hd => exact caseList_eq_ok_iff_of_reordered scalars hd

theorem ofDatum_eq_ok_iff_of_reordered (h : Reordered d d') (s : Suite) :
    Suite.ofDatum rule d = .ok s ↔ Suite.ofDatum rule d' = .ok s := by
  have hmap := h
  cases h with
  | refl => exact Iff.rfl
  | list items => exact Iff.rfl
  | map distinct keys values order =>
    rw [Suite.ofDatum, Suite.ofDatum, ofEntries_eq_ok_iff, ofEntries_eq_ok_iff,
      tolerance?_eq_of_rel scalars (hmap.find? "tolerance".toList),
      required_caseList_iff_of_rel scalars (hmap.find? "cases".toList),
      Record.unknownKeys_eq_nil_iff_of_reordered hmap]

end Order
end Suite

/-- Whatever reads as a number, if only scalars do: a case is read from the documented data and no
others, field by field, and so is a suite. The order of the entries does not matter. That a case
expects two things is told only where nothing else is wrong with it, by itself and in a suite. -/
theorem documented_data_accepted (rule : NumberRule) (scalars : rule.OnlyScalars) :
    (∀ d, (∃ c, Case.ofDatum rule d = .ok c) ↔ Case.Documented rule d) ∧
    (∀ d c, Case.ofDatum rule d = .ok c →
      ∃ entries, d = .map entries ∧ c.ReadFrom rule entries ∧ Case.LabelIn entries c.label) ∧
    (∀ d, (∃ s, Suite.ofDatum rule d = .ok s) ↔ Suite.Documented rule d) ∧
    (∀ d s, Suite.ofDatum rule d = .ok s →
      ∃ entries, d = .map entries ∧ s.ReadFrom rule entries) ∧
    (∀ d d', Reordered d d' →
      (∀ c, Case.ofDatum rule d = .ok c ↔ Case.ofDatum rule d' = .ok c) ∧
        ∀ s, Suite.ofDatum rule d = .ok s ↔ Suite.ofDatum rule d' = .ok s) ∧
    (∀ d x, x ∈ Record.details (Case.ofDatum rule d) → x.problem = .rule .twoExpectations →
      Record.details (Case.ofDatum rule d) = [x]) ∧
    (∀ d x, x ∈ Record.details (Suite.ofDatum rule d) → x.problem = .rule .twoExpectations →
      ∃ k : Nat, x.path = [.key "cases".toList, .index k] ∧
        ∀ y ∈ Record.details (Suite.ofDatum rule d),
          ∀ rest, y.path = .key "cases".toList :: .index k :: rest → y = x) := by
  refine ⟨fun _ => Case.exists_ofDatum_eq_iff, ?_, fun _ => Suite.exists_ofDatum_eq_iff, ?_, ?_,
    ?_, fun _ _ => Suite.details_of_twoExpectations⟩
  · intro d c h
    obtain ⟨entries, hd, _, hread⟩ := Case.ofDatum_eq_ok_iff.1 h
    exact ⟨entries, hd, hread, hread.labelIn⟩
  · intro d s h
    obtain ⟨entries, hd, _, hread⟩ := Suite.ofDatum_eq_ok_iff.1 h
    exact ⟨entries, hd, hread⟩
  · intro d d' h
    exact ⟨Case.ofDatum_eq_ok_iff_of_reordered scalars h,
      Suite.ofDatum_eq_ok_iff_of_reordered scalars h⟩
  · intro d x hx hproblem
    have halone := Case.details_of_twoExpectations hx hproblem
    rw [halone, List.mem_singleton] at hx
    rw [halone, hx]

/-- A number with an underscore behind its sign is read as such, before or after the expression. -/
theorem underscored_number_accepted :
    let entries : List (Datum × Datum) := [(.text "expression".toList, .text ['x']),
      (.text "expected".toList, .text "-_5".toList)]
    let c : Case := ⟨none, ['x'], ⟨.zero, .zero, .zero⟩, some (.ofInt (-5)), none⟩
    NumberRule.standard.OnlyScalars ∧ Case.Documented .standard (.map entries) ∧
      Case.ofDatum .standard (.map entries) = .ok c ∧
      Case.ofDatum .standard (.map entries.reverse) = .ok c := by
  intro entries c
  have hread : Case.ofDatum .standard (.map entries) = .ok c := by decide +kernel
  have hreordered : Reordered (.map entries) (.map entries.reverse) := by
    refine .map (by simp [entries]) rfl ?_ entries.reverse_perm.symm
    exact .cons (.refl _) (.cons (.refl _) .nil)
  obtain ⟨hdocumented, _, _, _, horder, _⟩ :=
    documented_data_accepted .standard NumberRule.standard_onlyScalars
  exact ⟨NumberRule.standard_onlyScalars, (hdocumented _).1 ⟨c, hread⟩, hread,
    ((horder _ _ hreordered).1 c).1 hread⟩

-- a second fault hides that two things are expected
example :
    let both := [(.text "expected".toList, .int 1),
      (.text "error".toList, .text "WrongEndingError".toList)]
    Record.details (Case.ofDatum .standard (.map both)) =
        [⟨[.key "expression".toList], .missing⟩] ∧
      Record.details (Case.ofDatum .standard
        (.map ((.text "expression".toList, .text ['x']) :: both))) =
          [⟨[], .rule .twoExpectations⟩] := by
  decide +kernel

end PrefixCalc
