import Mathlib.Data.List.Forall2
import PrefixCalc.Proofs.Outcome
import PrefixCalc.Suite.Case

/-! # Cases read from records

A reading seen from the whole record gives the same value as the reading by itself, so that each
field of a case is known from its own entry in the record. A field that may be left out may be
null as well, and a list is read item by item. The entry for the bindings is a record again, and
the first entry for a variable in it is the one that counts. -/

namespace PrefixCalc
set_option autoImplicit false

namespace Record

theorem within_eq_ok_iff {α : Type} {item : PathItem} {x : Read α} {a : α} :
    within item x = .ok a ↔ x = .ok a :=
  mapError_eq_ok_iff

theorem string_eq_ok_iff {d : Datum} {t : Text} : string d = .ok t ↔ d = .text t := by
  cases d <;> simp [string, refuse]

theorem number_eq_ok_iff {rule : NumberRule} {d : Datum} {v : Binary64} :
    number rule d = .ok v ↔ rule d = .ok v :=
  mapError_eq_ok_iff

/-- A field that may be absent or null: what is read from it, in terms of what is read from a
datum that is there. -/
inductive Holds {α : Type} (R : Datum → α → Prop) : Option Datum → Option α → Prop where
  | absent : Holds R none none
  | null : Holds R (some .null) none
  | given {d : Datum} {a : α} (notNull : d ≠ .null) (value : R d a) : Holds R (some d) (some a)

section Field
variable {α : Type} {read : Datum → Read α} {a : α} {o : Option Datum}

theorem optional_of_ne_null {d : Datum} (h : d ≠ .null) :
    optional read (some d) = (read d).map some := by
  cases d <;> first | rfl | exact absurd rfl h

theorem optional_eq_ok_iff {v : Option α} :
    optional read o = .ok v ↔ Holds (fun d a => read d = .ok a) o v := by
  constructor
  · intro h
    cases o with
    | none =>
      cases h
      exact .absent
    | some d =>
      by_cases hd : d = .null
      · subst hd
        cases h
        exact .null
      · rw [optional_of_ne_null hd, map_eq_ok_iff] at h
        obtain ⟨a, ha, rfl⟩ := h
        exact .given hd ha
  · intro h
    cases h with
    | absent => rfl
    | null => rfl
    | given notNull value =>
      rw [optional_of_ne_null notNull, map_eq_ok_iff]
      exact ⟨_, value, rfl⟩

theorem exists_holds_iff {R : Datum → α → Prop} :
    (∃ v, Holds R o v) ↔ ∀ d, o = some d → d = .null ∨ ∃ a, R d a := by
  constructor
  · rintro ⟨v, _ | _ | ⟨notNull, value⟩⟩ d hd
    · cases hd
    · cases hd
      exact .inl rfl
    · cases hd
      exact .inr ⟨_, value⟩
  · intro h
    cases o with
    | none => exact ⟨none, .absent⟩
    | some d =>
      by_cases hd : d = .null
      · exact ⟨none, hd ▸ .null⟩
      · obtain ⟨a, ha⟩ := (h d rfl).resolve_left hd
        exact ⟨some a, .given hd ha⟩

theorem Holds.eq_none_iff {R : Datum → α → Prop} {v : Option α} (h : Holds R o v) :
    v = none ↔ ∀ d, o = some d → d = .null := by
  cases h with
  | absent => simp
  | null => simp
  | given notNull value => simp [notNull]

theorem required_eq_ok_iff : required read o = .ok a ↔ ∃ d, o = some d ∧ read d = .ok a := by
  cases o <;> simp [required, refuse]

theorem unknownKeys_eq_nil_iff {known : List Text} {entries : List (Datum × Datum)} :
    unknownKeys known entries = [] ↔ ∀ e ∈ entries, ∃ t ∈ known, e.1 = .text t := by
  rw [unknownKeys, List.filterMap_eq_nil_iff]
  refine forall₂_congr ?_
  intro e _
  cases e.1 <;> simp

theorem items_eq_ok_iff {i : Nat} {ds : List Datum} {as : List α} :
    items read i ds = .ok as ↔ List.Forall₂ (fun d a => read d = .ok a) ds as := by
  induction ds generalizing i as with
  | nil => simp [items, eq_comm]
  | cons d ds ih =>
    have hhead : ∀ a, read d = .ok a ↔ within (.index i) (read d) = .ok a :=
      fun _ => within_eq_ok_iff.symm
    rw [items, List.forall₂_cons_left_iff]
    simp only [← ih (i := i + 1), hhead]
    cases within (.index i) (read d) with
    | error es => simp
    | ok a => cases items read (i + 1) ds <;> simp [eq_comm]

end Field

end Record

namespace Case
variable {rule : NumberRule} {c : Case}

/-- What a record of a case binds to the variable. -/
def boundDatum? (entries : List (Datum × Datum)) (i : Variable) : Option Datum :=
  match Datum.find? entries "bindings".toList with
  | some (.map bs) => Datum.find? bs i.name
  | _ => none

theorem binding_eq_ok_iff {e : Datum × Datum} {b : Text × Binary64} :
    binding rule e = .ok b ↔ e.1 = .text b.1 ∧ rule e.2 = .ok b.2 := by
  constructor
  · intro h
    unfold binding at h
    dsimp only at h
    split at h
    · next hname hnumber =>
      cases h
      rw [Record.within_eq_ok_iff] at hname hnumber
      exact ⟨Record.string_eq_ok_iff.1 (Record.within_eq_ok_iff.1 hname),
        Record.number_eq_ok_iff.1 hnumber⟩
    · cases h
  · rintro ⟨hname, hnumber⟩
    simp only [binding, hname, Record.number_eq_ok_iff.2 hnumber, Record.string]
    rfl

/-- A variable has the number that is bound to it, and zero if there is none. -/
theorem valueOf_of_bindingList {entries : List (Datum × Datum)} {bs : List (Text × Binary64)}
    (h : bindingList rule entries = .ok bs) (i : Variable) :
    (∀ d, Datum.find? entries i.name = some d → rule d = .ok (valueOf bs i)) ∧
      (Datum.find? entries i.name = none → valueOf bs i = .zero) := by
  induction entries generalizing bs with
  | nil =>
    cases h
    exact ⟨nofun, fun _ => rfl⟩
  | cons p ps ih =>
    rw [bindingList] at h
    split at h
    · next b bs hb hbs =>
      cases h
      obtain ⟨hkey, hnumber⟩ := binding_eq_ok_iff.1 hb
      obtain ⟨k, d⟩ := p
      subst hkey
      by_cases hname : b.1 = i.name
      · simp [Datum.find?, valueOf, hname, hnumber]
      · simpa [Datum.find?, valueOf, hname] using ih hbs
    · cases h

theorem get_argumentsOf (bs : List (Text × Binary64)) (i : Variable) :
    (argumentsOf bs).get i = valueOf bs i := by
  cases i <;> rfl

/-- The bindings of a record give each variable its number in the record, or zero. -/
theorem get_of_bindings {entries : List (Datum × Datum)} {p : Point}
    (h : bindings rule (Datum.find? entries "bindings".toList) = .ok p) (i : Variable) :
    (∀ d, boundDatum? entries i = some d → rule d = .ok (p.get i)) ∧
      (boundDatum? entries i = none → p.get i = .zero) := by
  unfold boundDatum?
  unfold bindings at h
  split at h
  · next hnone =>
    cases h
    rw [hnone, get_argumentsOf]
    exact ⟨nofun, fun _ => rfl⟩
  · next entries hentries =>
    rw [hentries]
    split at h
    · cases h
    · next bs hbs =>
      split at h
      · cases h
        rw [get_argumentsOf]
        exact valueOf_of_bindingList hbs i
      · cases h
  · cases h

theorem ofEntries_eq_ok_iff {entries : List (Datum × Datum)} :
    ofEntries rule entries = .ok c ↔
      Record.optional Record.string (Datum.find? entries "name".toList) = .ok c.name ∧
      Record.required Record.string (Datum.find? entries "expression".toList) =
        .ok c.expression ∧
      bindings rule (Datum.find? entries "bindings".toList) = .ok c.arguments ∧
      Record.optional (Record.number rule) (Datum.find? entries "expected".toList) =
        .ok c.expected ∧
      Record.optional errorKind (Datum.find? entries "error".toList) = .ok c.error ∧
      Record.unknownKeys fieldNames entries = [] ∧
      (c.expected.isSome && c.error.isSome) = false := by
  constructor
  · intro h
    unfold ofEntries Record.field at h
    dsimp only at h
    split at h
    · next hname hexpression harguments hexpected herror hunknown =>
      rw [Record.within_eq_ok_iff] at hname hexpression harguments hexpected herror
      split at h
      · cases h
      · next hsingle =>
        cases h
        exact ⟨hname, hexpression, harguments, hexpected, herror, hunknown, by simpa using hsingle⟩
    · cases h
  · rintro ⟨hname, hexpression, harguments, hexpected, herror, hunknown, hsingle⟩
    simp only [ofEntries, Record.field, hname, hexpression, harguments, hexpected, herror, hunknown,
      Record.within, Except.mapError, hsingle]
    rfl

/-- A case that was read binds each variable to its number in the record, or to zero. -/
theorem get_arguments_of_ofDatum {entries : List (Datum × Datum)}
    (h : Case.ofDatum rule (.map entries) = .ok c) (i : Variable) :
    (∀ d, boundDatum? entries i = some d → rule d = .ok (c.arguments.get i)) ∧
      (boundDatum? entries i = none → c.arguments.get i = .zero) :=
  get_of_bindings (ofEntries_eq_ok_iff.1 h).2.2.1 i

end Case
end PrefixCalc
