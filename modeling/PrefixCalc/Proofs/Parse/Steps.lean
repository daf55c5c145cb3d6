import PrefixCalc.Parse.Basic

/-! # Runs of the parsing machine

`State.Steps` is a sequence of moves with the events that they note. Every run goes by such a
sequence to a state whose move ends it, so that what each move keeps holds at the end of a
run, and a parse is decided by its last state. -/

namespace PrefixCalc.Parse
set_option autoImplicit false

namespace State

inductive Steps : State → List Event → State → Prop where
  | refl (s : State) : Steps s [] s
  | cons {s t u : State} {es fs : List Event} (head : s.step = .next t es)
      (tail : Steps t fs u) : Steps s (es ++ fs) u

namespace Steps
variable {s t u : State} {es fs : List Event}

theorem single (h : s.step = .next t es) : Steps s es t := by
  have := Steps.cons h (.refl t)
  rwa [List.append_nil] at this

theorem trans (hst : Steps s es t) (htu : Steps t fs u) : Steps s (es ++ fs) u := by
  induction hst with
  | refl => exact htu
  | cons h _ ih =>
    rw [List.append_assoc]
    exact .cons h (ih htu)

theorem run_eq (h : Steps s es t) : s.run = (es ++ t.run.1, t.run.2) := by
  induction h with
  | refl => rfl
  | cons h _ ih => rw [run_of_next h, ih, List.append_assoc]

/-- What every move keeps is kept by all of them. -/
theorem preserves {P : State → Prop} (h : Steps s es t)
    (step : ∀ {s t : State} {es : List Event}, P s → s.step = .next t es → P t) (hs : P s) :
    P t := by
  induction h with
  | refl => exact hs
  | cons h _ ih => exact ih (step hs h)

end Steps

/-- The last state of a run. -/
theorem exists_last (s : State) :
    ∃ es t fs o, Steps s es t ∧ t.step = .stop o fs ∧ s.run = (es ++ fs, o) := by
  cases h : s.step with
  | stop o fs => exact ⟨[], s, fs, o, .refl s, h, run_of_stop h⟩
  | next t es =>
    obtain ⟨gs, u, fs, o, hu, hstop, hrun⟩ := exists_last t
    refine ⟨es ++ gs, u, fs, o, .cons h hu, hstop, ?_⟩
    rw [run_of_next h, hrun, List.append_assoc]
termination_by s.measure
decreasing_by exact measure_step h

end State

/-! ## Results -/

theorem resultOf_tree {t : Text} {o : Outcome} {e : Expr} {c : Cursor} (h : ∀ f, o ≠ .fault f)
    (ho : o = .tree e c) : resultOf t o h = finish t e c := by
  subst ho
  rfl

theorem resultOf_error {t : Text} {o : Outcome} {cause : ParseError.Cause}
    (h : ∀ f, o ≠ .fault f) (ho : o = .error cause) : resultOf t o h = .error ⟨t, cause⟩ := by
  subst ho
  rfl

theorem parse_nil : parse [] = .error ⟨[], .emptyExpression⟩ := rfl

theorem parse_of_tree {t : Text} {e : Expr} {c : Cursor} (ht : t ≠ [])
    (h : (State.start t).run.2 = .tree e c) : parse t = finish t e c := by
  rw [parse, if_neg ht]
  exact resultOf_tree _ h

theorem parse_of_error {t : Text} {cause : ParseError.Cause} (ht : t ≠ [])
    (h : (State.start t).run.2 = .error cause) : parse t = .error ⟨t, cause⟩ := by
  rw [parse, if_neg ht]
  exact resultOf_error _ h

/-- The machine stops with a complete expression and no open operation, or in an error. -/
theorem exists_end {t : Text} (ht : t ≠ []) :
    ∃ es s, State.Steps (State.start t) es s ∧
      ((∃ e c, s = ⟨.built e, [], c⟩ ∧ (State.start t).run.2 = .tree e c ∧
          parse t = finish t e c) ∨
        ∃ cause fs, s.step = .stop (.error cause) fs ∧ parse t = .error ⟨t, cause⟩) := by
  obtain ⟨es, s, fs, o, hs, hstop, hrun⟩ := (State.start t).exists_last
  refine ⟨es, s, hs, ?_⟩
  have ho : (State.start t).run.2 = o := by rw [hrun]
  cases o with
  | tree e c =>
    refine .inl ⟨e, c, ?_, ho, parse_of_tree ht ho⟩
    cases State.effect_of_step hstop
    rfl
  | error cause => exact .inr ⟨cause, fs, hstop, parse_of_error ht ho⟩
  | fault f => exact absurd ho (State.run_ne_fault _ f)

end PrefixCalc.Parse
