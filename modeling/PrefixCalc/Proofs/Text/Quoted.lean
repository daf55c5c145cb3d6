import PrefixCalc.Text.Quoted

/-! # Texts that are quoted as they stand

Between single quotes stand the same characters, if all of them are printable ASCII characters
and none is a single quote or a backslash. -/

namespace PrefixCalc.Text
set_option autoImplicit false

structure IsPlain (c : Char) : Prop where
  low : 0x20 ≤ c.toNat
  high : c.toNat ≤ 0x7E
  quote : c ≠ '\''
  backslash : c ≠ '\\'

theorem inRanges_eq_false {n : Nat} (ranges : List (Nat × Nat))
    (h : (ranges.all fun r => r.2 < 0x20 || 0x7E < r.1) = true) (hlow : 0x20 ≤ n)
    (hhigh : n ≤ 0x7E) : inRanges ranges n = false := by
  apply List.any_eq_false.mpr
  intro r hr
  have hr := List.all_eq_true.mp h r hr
  simp only [Bool.or_eq_true, decide_eq_true_eq] at hr
  simp only [Bool.and_eq_true, decide_eq_true_eq]
  omega

namespace IsPlain
variable {c : Char} {t : Text}

theorem of_isDigit (h : c.isDigit = true) : IsPlain c := by
  have hlow : 48 ≤ c.toNat := (Char.isDigit_iff_toNat.mp h).1
  have hhigh : c.toNat ≤ 57 := (Char.isDigit_iff_toNat.mp h).2
  have hne : ∀ {d : Char}, d.isDigit = false → c ≠ d := by
    rintro d hd rfl
    rw [h] at hd
    cases hd
  exact ⟨by omega, by omega, hne (by decide), hne (by decide)⟩

/-- No range of unprintable characters meets printable ASCII. -/
theorem isPrintable (h : IsPlain c) : isPrintable c = true := by
  have hfirst := inRanges_eq_false unprintableBelow1000 (by decide +kernel) h.low h.high
  have hsecond := inRanges_eq_false unprintableBelow10000 (by decide +kernel) h.low h.high
  have hthird := inRanges_eq_false unprintableAbove (by decide +kernel) h.low h.high
  rw [Text.isPrintable, hfirst, hsecond, hthird]
  rfl

theorem quoteChar_eq (h : IsPlain c) : quoteChar '\'' c = [c] := by
  have hne : ∀ {d : Char}, d.toNat < 0x20 → c ≠ d := by
    rintro d hd rfl
    exact Nat.not_lt.mpr h.low hd
  rw [quoteChar, if_neg (not_or.mpr ⟨h.quote, h.backslash⟩), if_neg (hne (by decide)),
    if_neg (hne (by decide)), if_neg (hne (by decide)), if_pos h.isPrintable]

theorem flatMap_quoteChar (h : ∀ c ∈ t, IsPlain c) : t.flatMap (quoteChar '\'') = t := by
  induction t with
  | nil => rfl
  | cons c t ih =>
    rw [List.flatMap_cons, (h c List.mem_cons_self).quoteChar_eq,
      ih fun d hd => h d (List.mem_cons_of_mem c hd)]
    rfl

theorem quoted_eq (h : ∀ c ∈ t, IsPlain c) : t.quoted = '\'' :: (t ++ ['\'']) := by
  have hcontains : t.contains '\'' = false := by
    rw [List.contains_eq_mem, decide_eq_false_iff_not]
    intro hmem
    exact (h _ hmem).quote rfl
  have hquote : t.quoteFor = '\'' := by
    rw [quoteFor, hcontains]
    rfl
  rw [quoted, hquote, flatMap_quoteChar h]

end IsPlain
end PrefixCalc.Text
