import PrefixCalc.Proofs.Suite.Record

/-! # Where the details of a refusal come from

The details of a part are those of the whole with one step less in their paths, so that the
details of a suite below an index of its cases are those of that case. The two expectations of a
case are held against each other only where each field can be read and no key is unknown, so
that a detail that tells of them stands alone. -/

namespace PrefixCalc
set_option autoImplicit false

namespace Record

section Details
variable {α : Type} {p : Problem} {r : Read α} {read : Datum → Read α} {x : Detail}

/-- No detail tells this problem. -/
def Avoids (p : Problem) (r : Read α) : Prop := ∀ x ∈ details r, x.problem ≠ p

theorem mem_details_within {item : PathItem} :
    x ∈ details (within item r) ↔ ∃ y ∈ details r, y.within item = x := by
  cases r <;> simp [within, details, Except.mapError]

theorem mem_details_refuse {q : Problem} : x ∈ details (refuse q : Read α) ↔ x = ⟨[], q⟩ :=
  List.mem_singleton

theorem mem_details_items_cons {i : Nat} {d : Datum} {ds : List Datum} :
    x ∈ details (items read i (d :: ds)) ↔
      x ∈ details (within (.index i) (read d)) ∨ x ∈ details (items read (i + 1) ds) := by
  rw [items]
  split
  · next hd hds =>
    rw [hd, hds]
    exact (or_self_iff).symm
  · exact List.mem_append

theorem mem_details_items {i : Nat} {ds : List Datum} :
    x ∈ details (items read i ds) ↔ ∃ k d, ds[k]? = some d ∧
      ∃ y ∈ details (read d), y.within (.index (i + k : Nat)) = x := by
  induction ds generalizing i with
  | nil => simp [items, details]
  | cons d ds ih =>
    have hindex : ∀ k : Nat, i + 1 + k = i + (k + 1) := by omega
    simp only [mem_details_items_cons, ih, mem_details_within, hindex]
    constructor
    · rintro (hd | ⟨k, d', hd', hx⟩)
      · exact ⟨0, d, rfl, hd⟩
      · exact ⟨k + 1, d', hd', hx⟩
    · rintro ⟨_ | k, d', hd', hx⟩
      · cases hd'
        exact .inl hx
      · exact .inr ⟨k, d', hd', hx⟩

theorem avoids_ok (a : α) : Avoids p (.ok a : Read α) := by
  intro x hx
  cases hx

theorem avoids_refuse {q : Problem} (h : q ≠ p) : Avoids p (refuse q : Read α) := by
  intro x hx
  rw [mem_details_refuse.1 hx]
  exact h

theorem Avoids.within (h : Avoids p r) (item : PathItem) : Avoids p (within item r) := by
  intro x hx
  obtain ⟨y, hy, rfl⟩ := mem_details_within.1 hx
  exact h y hy

theorem avoids_append {β : Type} {r' : Read β} (h : Avoids p r) (h' : Avoids p r') :
    ∀ x ∈ details r ++ details r', x.problem ≠ p := by
  intro x hx
  rcases List.mem_append.1 hx with hx | hx
  · exact h x hx
  · exact h' x hx

theorem avoids_optional {o : Option Datum} (h : ∀ d, Avoids p (read d)) :
    Avoids p (optional read o) := by
  cases o with
  | none => exact avoids_ok _
  | some d =>
    by_cases hd : d = .null
    · subst hd
      exact avoids_ok _
    · rw [optional_of_ne_null hd]
      have hread := h d
      revert hread
      cases read d <;> exact id

theorem avoids_required {o : Option Datum} (hmissing : Problem.missing ≠ p)
    (h : ∀ d, Avoids p (read d)) : Avoids p (required read o) := by
  cases o with
  | none => exact avoids_refuse hmissing
  | some d => exact h d

variable {rule : NumberRule} {f : RuleFault}

theorem string_avoids (d : Datum) : Avoids (.rule f) (string d) := by
  cases d with
  | text t => exact avoids_ok t
  | _ => exact avoids_refuse (by simp)

theorem mem_details_number {d : Datum} (h : x ∈ details (number rule d)) :
    ∃ fault, x = ⟨[], .number fault⟩ := by
  unfold number at h
  cases hd : rule d with
  | ok v =>
    rw [hd] at h
    cases h
  | error fault =>
    rw [hd] at h
    exact ⟨fault, List.mem_singleton.1 h⟩

theorem number_avoids (d : Datum) : Avoids (.rule f) (number rule d) := by
  intro x hx
  obtain ⟨fault, rfl⟩ := mem_details_number hx
  simp

theorem problem_of_mem_unknownKeys {known : List Text} {entries : List (Datum × Datum)}
    (h : x ∈ unknownKeys known entries) : x.problem ≠ .rule f ∧ x.path.length = 1 := by
  obtain ⟨e, _, he⟩ := List.mem_filterMap.1 h
  split at he
  · split at he
    · cases he
    · cases he
      exact ⟨by simp, rfl⟩
  · cases he
    exact ⟨by simp, rfl⟩

end Details
end Record

namespace Case

open Record

section Cases
variable {rule : NumberRule} {f : RuleFault} {x : Detail} {d : Datum}

theorem binding_avoids (e : Datum × Datum) : Avoids (.rule f) (binding rule e) := by
  unfold binding
  dsimp only
  split
  · exact avoids_ok _
  · exact avoids_append (((string_avoids e.1).within _).within _) ((number_avoids e.2).within _)

theorem bindingList_avoids (es : List (Datum × Datum)) :
    Avoids (.rule f) (bindingList rule es) := by
  induction es with
  | nil => exact avoids_ok _
  | cons e es ih =>
    rw [bindingList]
    split
    · exact avoids_ok _
    · exact avoids_append (binding_avoids e) ih

theorem bindings_avoids (o : Option Datum) :
    Avoids (.rule .twoExpectations) (bindings rule o) := by
  unfold bindings
  split
  · exact avoids_ok _
  · next entries =>
    have hlist : Avoids (.rule .twoExpectations) (bindingList rule entries) :=
      bindingList_avoids entries
    split
    · next ds hds =>
      rw [hds] at hlist
      exact hlist
    · split
      · exact avoids_ok _
      · exact avoids_refuse (by simp)
  · exact avoids_refuse (by simp)

theorem errorKind_avoids (d : Datum) : Avoids (.rule .twoExpectations) (errorKind d) := by
  have hstring := string_avoids (f := .twoExpectations) d
  unfold errorKind
  split
  · next ds hds =>
    rw [hds] at hstring
    exact hstring
  · split
    · exact avoids_ok _
    · exact avoids_refuse (by simp)

theorem ofEntries_refused_or_avoids (rule : NumberRule) (entries : List (Datum × Datum)) :
    ofEntries rule entries = refuse (.rule .twoExpectations) ∨
      Avoids (.rule .twoExpectations) (ofEntries rule entries) := by
  have hname : Avoids (.rule .twoExpectations) (field entries "name".toList (optional string)) :=
    (avoids_optional string_avoids).within _
  have hexpression : Avoids (.rule .twoExpectations)
      (field entries "expression".toList (required string)) :=
    (avoids_required (by decide) string_avoids).within _
  have hbindings : Avoids (.rule .twoExpectations)
      (field entries "bindings".toList (bindings rule)) :=
    (bindings_avoids _).within _
  have hexpected : Avoids (.rule .twoExpectations)
      (field entries "expected".toList (optional (number rule))) :=
    (avoids_optional number_avoids).within _
  have herror : Avoids (.rule .twoExpectations)
      (field entries "error".toList (optional errorKind)) :=
    (avoids_optional errorKind_avoids).within _
  -- the rule is applied where every field was read, and nothing else can be told then
  unfold ofEntries
  dsimp only
  split
  · split
    · exact .inl rfl
    · exact .inr (avoids_ok _)
  · refine .inr ?_
    intro x hx
    simp only [details, List.mem_append] at hx
    rcases hx with ((((hx | hx) | hx) | hx) | hx) | hx
    · exact hname x hx
    · exact hexpression x hx
    · exact hbindings x hx
    · exact hexpected x hx
    · exact herror x hx
    · exact (problem_of_mem_unknownKeys hx).1

/-- A case that is told to expect two things is told nothing else. -/
theorem details_of_twoExpectations (hx : x ∈ details (Case.ofDatum rule d))
    (hproblem : x.problem = .rule .twoExpectations) :
    details (Case.ofDatum rule d) = [⟨[], .rule .twoExpectations⟩] := by
  cases d with
  | map entries =>
    rw [Case.ofDatum] at hx ⊢
    rcases ofEntries_refused_or_avoids rule entries with hrefused | havoids
    · rw [hrefused]
      rfl
    · exact absurd hproblem (havoids x hx)
  | _ =>
    rw [mem_details_refuse.1 hx] at hproblem
    cases hproblem

end Cases
end Case

namespace Suite

open Record

section Suites
variable {rule : NumberRule} {x : Detail} {d : Datum} {o : Option Datum}
  {entries : List (Datum × Datum)}

/-- The detail is one of the case at the index, seen from the suite. -/
def TellsOfCase (rule : NumberRule) (entries : List (Datum × Datum)) (k : Nat) (x : Detail) :
    Prop :=
  ∃ ds d, Datum.find? entries "cases".toList = some (.list ds) ∧ ds[k]? = some d ∧
    ∃ y ∈ details (Case.ofDatum rule d), (y.within (.index k)).within (.key "cases".toList) = x

/-- The detail is about the suite itself and no rule of its cases. -/
def TellsOfSuite (x : Detail) : Prop :=
  (∀ f, x.problem ≠ .rule f) ∧
    ∀ (k : Nat) (rest : List PathItem), x.path ≠ .key "cases".toList :: .index k :: rest

theorem tellsOfSuite_of_short {item : PathItem} {p : Problem} (h : ∀ f, p ≠ .rule f) :
    TellsOfSuite ⟨[item], p⟩ := by
  refine ⟨h, ?_⟩
  intro k rest hpath
  cases hpath

theorem mem_details_tolerance? (h : x ∈ details (tolerance? rule o)) :
    ∃ p, x = ⟨[], p⟩ ∧ ∀ f, p ≠ .rule f := by
  unfold tolerance? at h
  split at h
  · cases h
  · next d =>
    split at h
    · next ds hds =>
      have hx : x ∈ details (number rule d) := hds ▸ h
      obtain ⟨fault, rfl⟩ := mem_details_number hx
      exact ⟨_, rfl, by simp⟩
    · split at h
      · cases h
      · exact ⟨_, mem_details_refuse.1 h, by simp⟩

theorem mem_details_caseList (h : x ∈ details (caseList rule d)) :
    (∃ ds, d = .list ds ∧ x ∈ details (items (Case.ofDatum rule) 0 ds)) ∨
      ∃ p, x = ⟨[], p⟩ ∧ ∀ f, p ≠ .rule f := by
  unfold caseList at h
  split at h
  · exact .inr ⟨_, mem_details_refuse.1 h, by simp⟩
  · next ds _ => exact .inl ⟨ds, rfl, h⟩
  · exact .inr ⟨_, mem_details_refuse.1 h, by simp⟩

theorem mem_details_cases
    (h : x ∈ details (field entries "cases".toList (required (caseList rule)))) :
    (∃ k, TellsOfCase rule entries k x) ∨ TellsOfSuite x := by
  obtain ⟨y, hy, rfl⟩ := mem_details_within.1 h
  cases hfind : Datum.find? entries "cases".toList with
  | none =>
    rw [hfind] at hy
    cases mem_details_refuse.1 hy
    exact .inr (tellsOfSuite_of_short (by simp))
  | some d =>
    rw [hfind] at hy
    rcases mem_details_caseList hy with ⟨ds, rfl, hitems⟩ | ⟨p, rfl, hp⟩
    · obtain ⟨k, d, hd, z, hz, rfl⟩ := mem_details_items.1 hitems
      rw [Nat.zero_add]
      exact .inl ⟨k, ds, d, hfind, hd, z, hz, rfl⟩
    · exact .inr (tellsOfSuite_of_short hp)

/-- A detail of a refused suite is about one of its cases, or no rule is broken. -/
theorem mem_details_ofEntries (h : x ∈ details (ofEntries rule entries)) :
    (∃ k, TellsOfCase rule entries k x) ∨ TellsOfSuite x := by
  unfold ofEntries at h
  dsimp only at h
  split at h
  · cases h
  · simp only [details, List.mem_append] at h
    rcases h with (h | h) | h
    · obtain ⟨y, hy, rfl⟩ := mem_details_within.1 h
      obtain ⟨p, rfl, hp⟩ := mem_details_tolerance? hy
      exact .inr (tellsOfSuite_of_short hp)
    · exact mem_details_cases h
    · refine .inr ⟨fun f => (problem_of_mem_unknownKeys h).1, ?_⟩
      intro k rest hpath
      have hlength := (problem_of_mem_unknownKeys (f := .twoExpectations) h).2
      rw [hpath] at hlength
      cases hlength

/-- A case of a suite that is told to expect two things is told nothing else. -/
theorem details_of_twoExpectations (hx : x ∈ details (Suite.ofDatum rule d))
    (hproblem : x.problem = .rule .twoExpectations) :
    ∃ k : Nat, x.path = [.key "cases".toList, .index k] ∧ ∀ y ∈ details (Suite.ofDatum rule d),
      ∀ rest, y.path = .key "cases".toList :: .index k :: rest → y = x := by
  cases d with
  | map entries =>
    rw [Suite.ofDatum] at hx ⊢
    rcases mem_details_ofEntries hx with ⟨k, ds, d, hds, hd, z, hz, rfl⟩ | ⟨hrule, _⟩
    · have halone := Case.details_of_twoExpectations hz hproblem
      rw [halone, List.mem_singleton] at hz
      subst hz
      refine ⟨k, rfl, ?_⟩
      intro y hy rest hpath
      rcases mem_details_ofEntries hy with ⟨k', ds', d', hds', hd', z', hz', rfl⟩ | ⟨_, hother⟩
      · cases hds.symm.trans hds'
        -- both details are below the same index, and so about the same case
        have hk : k' = k := by
          have hindex := (List.cons.inj (List.cons.inj hpath).2).1
          exact Int.ofNat_inj.1 (PathItem.index.inj hindex)
        subst hk
        cases hd.symm.trans hd'
        rw [halone, List.mem_singleton] at hz'
        rw [hz']
      · exact absurd hpath (hother k rest)
    · exact absurd hproblem (hrule _)
  | _ =>
    rw [mem_details_refuse.1 hx] at hproblem
    cases hproblem

end Suites
end Suite
end PrefixCalc
