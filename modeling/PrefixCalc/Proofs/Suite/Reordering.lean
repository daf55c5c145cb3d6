import Mathlib.Data.List.Perm.Basic
import PrefixCalc.Suite.Case

/-! # Data in another order

The keys of a map are distinct and have no order. Data that differ only in the order of the
entries of their maps, at whatever depth, have the same scalars in the same places: under each
key there is nothing in both maps, or there are data that differ in this way again. -/

namespace PrefixCalc
set_option autoImplicit false

section Lists
variable {α β : Type} {R : α → β → Prop} {as : List α} {bs : List β}

theorem forall_mem_iff_of_forall₂ (h : List.Forall₂ R as bs) {P : α → Prop} {Q : β → Prop}
    (hPQ : ∀ {a b}, R a b → (P a ↔ Q b)) : (∀ a ∈ as, P a) ↔ ∀ b ∈ bs, Q b := by
  induction h with
  | nil => exact iff_of_true (List.forall_mem_nil _) (List.forall_mem_nil _)
  | cons head _ ih => rw [List.forall_mem_cons, List.forall_mem_cons, hPQ head, ih]

theorem exists_forall₂_iff : (∃ bs, List.Forall₂ R as bs) ↔ ∀ a ∈ as, ∃ b, R a b := by
  induction as with
  | nil => exact iff_of_true ⟨[], .nil⟩ (List.forall_mem_nil _)
  | cons a as ih =>
    rw [List.forall_mem_cons, ← ih]
    constructor
    · rintro ⟨_, _ | ⟨hb, hbs⟩⟩
      exact ⟨⟨_, hb⟩, _, hbs⟩
    · rintro ⟨⟨b, hb⟩, bs, hbs⟩
      exact ⟨b :: bs, .cons hb hbs⟩

theorem forall₂_iff_of_forall₂ {γ : Type} {P : α → γ → Prop} {Q : β → γ → Prop} {cs : List γ}
    (h : List.Forall₂ R as bs) (hPQ : ∀ {a b}, R a b → ∀ c, P a c ↔ Q b c) :
    List.Forall₂ P as cs ↔ List.Forall₂ Q bs cs := by
  induction h generalizing cs with
  | nil => rw [List.forall₂_nil_left_iff, List.forall₂_nil_left_iff]
  | cons head _ ih =>
    rw [List.forall₂_cons_left_iff, List.forall₂_cons_left_iff]
    simp only [hPQ head, ih]

end Lists

namespace Datum

/-- The same datum but for the order in which the entries of its maps are given. -/
inductive Reordered : Datum → Datum → Prop where
  | refl (d : Datum) : Reordered d d
  | list {ds ds' : List Datum} (items : List.Forall₂ Reordered ds ds') :
      Reordered (.list ds) (.list ds')
  | map {es fs gs : List (Datum × Datum)} (distinct : (es.map Prod.fst).Nodup)
      (keys : es.map Prod.fst = fs.map Prod.fst)
      (values : List.Forall₂ Reordered (es.map Prod.snd) (fs.map Prod.snd)) (order : fs.Perm gs) :
      Reordered (.map es) (.map gs)

theorem Reordered.rel_refl (o : Option Datum) : Option.Rel Reordered o o := by
  cases o with
  | none => exact .none
  | some d => exact .some (.refl d)

section Find
variable {e : Datum × Datum} {es fs gs : List (Datum × Datum)} {k : Text} {d : Datum}

theorem find?_cons_self : find? ((.text k, d) :: es) k = some d := by
  simp [find?]

theorem find?_cons_of_ne (h : e.1 ≠ .text k) : find? (e :: es) k = find? es k := by
  obtain ⟨key, d⟩ := e
  unfold find?
  rw [List.find?_cons_of_neg]
  cases key <;> simp_all

theorem find?_eq_some_iff (h : (es.map Prod.fst).Nodup) :
    find? es k = some d ↔ (.text k, d) ∈ es := by
  induction es with
  | nil => simp [find?]
  | cons e es ih =>
    obtain ⟨hnew, hes⟩ := List.nodup_cons.1 h
    by_cases hk : e.1 = .text k
    · obtain ⟨key, v⟩ := e
      subst hk
      have hmem : (.text k, d) ∉ es := by
        intro hd
        exact hnew (List.mem_map.2 ⟨_, hd, rfl⟩)
      simp [find?_cons_self, hmem, eq_comm]
    · have hne : (.text k, d) ≠ e := by
        rintro rfl
        exact hk rfl
      rw [find?_cons_of_ne hk, ih hes, List.mem_cons, or_iff_right hne]

theorem find?_perm (h : (es.map Prod.fst).Nodup) (order : es.Perm fs) :
    find? es k = find? fs k := by
  have h' : (fs.map Prod.fst).Nodup := (order.map Prod.fst).nodup_iff.1 h
  ext d
  rw [find?_eq_some_iff h, find?_eq_some_iff h', order.mem_iff]

theorem find?_rel (keys : es.map Prod.fst = fs.map Prod.fst)
    (values : List.Forall₂ Reordered (es.map Prod.snd) (fs.map Prod.snd)) :
    Option.Rel Reordered (find? es k) (find? fs k) := by
  induction es generalizing fs with
  | nil =>
    obtain rfl := List.map_eq_nil_iff.1 keys.symm
    exact .none
  | cons e es ih =>
    obtain ⟨f, fs, rfl, hkey, hkeys⟩ := List.map_eq_cons_iff.1 keys.symm
    obtain ⟨hvalue, hvalues⟩ := List.forall₂_cons.1 values
    by_cases hk : e.1 = .text k
    · obtain ⟨key, v⟩ := e
      obtain ⟨key', v'⟩ := f
      cases hk
      cases hkey
      rw [find?_cons_self, find?_cons_self]
      exact .some hvalue
    · rw [find?_cons_of_ne hk, find?_cons_of_ne (hkey ▸ hk)]
      exact ih hkeys.symm hvalues

/-- Nothing is under a key of both maps, or data that are the same again but for their order. -/
theorem Reordered.find? (h : Reordered (.map es) (.map gs)) (k : Text) :
    Option.Rel Reordered (find? es k) (find? gs k) := by
  cases h with
  | refl => exact rel_refl _
  | map distinct keys values order =>
    rw [← find?_perm (keys ▸ distinct) order]
    exact find?_rel keys values

/-- What is said of each key by itself does not depend on the order. -/
theorem Reordered.forall_key_iff (h : Reordered (.map es) (.map gs)) (P : Datum → Prop) :
    (∀ e ∈ es, P e.1) ↔ ∀ e ∈ gs, P e.1 := by
  cases h with
  | refl => exact Iff.rfl
  | @map _ fs _ distinct keys values order =>
    calc (∀ e ∈ es, P e.1)
        ↔ ∀ k ∈ es.map Prod.fst, P k := List.forall_mem_map.symm
      _ ↔ ∀ e ∈ fs, P e.1 := by rw [keys, List.forall_mem_map]
      _ ↔ ∀ e ∈ gs, P e.1 := by simp only [order.mem_iff]

/-- Nor does what is said of each value, if it is said of a datum in every order alike. -/
theorem Reordered.forall_value_iff (h : Reordered (.map es) (.map gs)) {P : Datum → Prop}
    (hP : ∀ {d d'}, Reordered d d' → (P d ↔ P d')) : (∀ e ∈ es, P e.2) ↔ ∀ e ∈ gs, P e.2 := by
  cases h with
  | refl => exact Iff.rfl
  | @map _ fs _ distinct keys values order =>
    calc (∀ e ∈ es, P e.2)
        ↔ ∀ d ∈ es.map Prod.snd, P d := List.forall_mem_map.symm
      _ ↔ ∀ d ∈ fs.map Prod.snd, P d := forall_mem_iff_of_forall₂ values hP
      _ ↔ ∀ e ∈ fs, P e.2 := List.forall_mem_map
      _ ↔ ∀ e ∈ gs, P e.2 := by simp only [order.mem_iff]

end Find
end Datum
end PrefixCalc
