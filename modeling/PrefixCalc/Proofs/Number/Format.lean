import PrefixCalc.Number.Format
import PrefixCalc.Proofs.Number.Decimal
import PrefixCalc.Proofs.Number.Literal

/-! # Doubles as they are written

Every decimal is written as a literal of its value, so that every finite double is written as
a literal that reads back as the same double, the sign of a zero included. -/

namespace PrefixCalc
set_option autoImplicit false

/-- The text is a literal without a sign that starts with a digit and has the value. -/
structure Literal.Writes (l : Literal) (t : Text) (d : Decimal) : Prop where
  valid : l.Valid
  unsigned : l.sign = none
  starts : l.whole ≠ []
  text : l.toText = t
  value : l.toDecimal.value = d.value

namespace Decimal

theorem writes_ofNat (n : Nat) : ∃ l : Literal, l.Writes (Text.ofNat n) ⟨n, 0⟩ := by
  refine ⟨⟨none, Text.ofNat n, none, none⟩, ?_, rfl, Text.ofNat_ne_nil n, ?_, ?_⟩
  · apply Literal.Valid.unsigned (Text.ofNat_ne_nil n) Text.isDigit_of_mem_ofNat
    · intro f hf
      cases hf
    · intro e he
      cases he
  · simp [Literal.toText]
  · simp [Literal.toDecimal, Text.toNat_ofNat]

theorem value_shift (n k : Nat) (e : Int) : value ⟨tenPow k * n, e - k⟩ = value ⟨n, e⟩ := by
  simp only [value]
  rw [Nat.cast_mul, cast_tenPow, zpow_sub₀ (by norm_num)]
  field_simp

theorem isDigit_of_mem_zeros {k : Nat} : ∀ c ∈ List.replicate k '0', c.isDigit = true := by
  intro c hc
  rw [List.eq_of_mem_replicate hc]
  decide

theorem isDigit_of_mem_append {s t : Text} (hs : ∀ c ∈ s, c.isDigit = true)
    (ht : ∀ c ∈ t, c.isDigit = true) : ∀ c ∈ s ++ t, c.isDigit = true := by
  intro c hc
  rcases List.mem_append.1 hc with hc | hc
  · exact hs c hc
  · exact ht c hc

/-! ## Exponents -/

theorem exists_padded (n : Nat) :
    ∃ us : Text, us = (if (Text.ofNat n).length < 2 then '0' :: Text.ofNat n else Text.ofNat n) ∧
      us ≠ [] ∧ (∀ c ∈ us, c.isDigit = true) ∧ Text.toNat us = n := by
  have hdigit := Text.isDigit_of_mem_ofNat (n := n)
  have hpad := isDigit_of_mem_append (isDigit_of_mem_zeros (k := 1)) hdigit
  split
  · exact ⟨_, rfl, List.cons_ne_nil _ _, hpad,
      (Text.toNat_zeros_append 1 _).trans (Text.toNat_ofNat n)⟩
  · exact ⟨_, rfl, Text.ofNat_ne_nil n, hdigit, Text.toNat_ofNat n⟩

theorem exists_exponent (lead : Int) :
    ∃ x : Literal.Exponent, x.Valid ∧ x.toText = exponentText lead ∧ x.value = lead := by
  obtain ⟨us, hus, hne, hd, hnat⟩ := exists_padded lead.natAbs
  unfold exponentText
  dsimp only
  rw [← hus]
  by_cases hneg : lead < 0
  · rw [if_pos hneg]
    refine ⟨⟨'e', some '-', us⟩, ⟨.inl rfl, ?_, hne, hd⟩, rfl, ?_⟩
    · intro c hc
      cases hc
      decide
    · rw [Literal.Exponent.value, if_pos rfl, hnat]
      omega
  · rw [if_neg hneg]
    refine ⟨⟨'e', some '+', us⟩, ⟨.inl rfl, ?_, hne, hd⟩, rfl, ?_⟩
    · intro c hc
      cases hc
      decide
    · rw [Literal.Exponent.value, if_neg (by simp), hnat]
      omega

/-! ## Positions of the point -/

/-- Digits on both sides of the point, and no exponent. -/
theorem writes_point {whole fraction : Text} {d : Decimal} (hne : whole ≠ [])
    (hw : ∀ c ∈ whole, c.isDigit = true) (hf : ∀ c ∈ fraction, c.isDigit = true)
    (hv : value ⟨Text.toNat (whole ++ fraction), -(fraction.length : Int)⟩ = d.value) :
    ∃ l : Literal, l.Writes (whole ++ '.' :: fraction) d := by
  refine ⟨⟨none, whole, some fraction, none⟩, ?_, rfl, hne, ?_, ?_⟩
  · apply Literal.Valid.unsigned hne hw
    · intro f hf'
      cases hf'
      exact hf
    · intro e he
      cases he
  · simp [Literal.toText]
  · rw [← hv]
    simp [Literal.toDecimal]

section Digits
variable {ds : Text} (hne : ds ≠ []) (hd : ∀ c ∈ ds, c.isDigit = true)
include hne hd

omit hne in
theorem writes_before (k : Nat) :
    ∃ l : Literal, l.Writes ('0' :: '.' :: (List.replicate k '0' ++ ds))
      ⟨Text.toNat ds, -((k : Int) + ds.length)⟩ := by
  apply writes_point (List.cons_ne_nil '0' []) (isDigit_of_mem_zeros (k := 1))
    (isDigit_of_mem_append isDigit_of_mem_zeros hd)
  have hnat : Text.toNat (['0'] ++ (List.replicate k '0' ++ ds)) = Text.toNat ds :=
    (Text.toNat_zeros_append 1 _).trans (Text.toNat_zeros_append k ds)
  rw [hnat, List.length_append, List.length_replicate, Nat.cast_add]

theorem writes_after (k : Nat) :
    ∃ l : Literal, l.Writes (ds ++ List.replicate k '0' ++ ['.', '0']) ⟨Text.toNat ds, k⟩ := by
  apply writes_point (by simp [hne]) (isDigit_of_mem_append hd isDigit_of_mem_zeros)
    (isDigit_of_mem_zeros (k := 1))
  have hnat : Text.toNat (ds ++ List.replicate k '0' ++ List.replicate 1 '0') =
      tenPow (k + 1) * Text.toNat ds := by
    rw [List.append_assoc, List.replicate_append_replicate, Text.toNat_append_zeros]
  have hexp : -((List.replicate 1 '0').length : Int) = (k : Int) - (k + 1 : Nat) := by simp
  rw [hnat, hexp, value_shift]

theorem writes_inside {k : Nat} (h0 : 0 < k) (hk : k ≤ ds.length) :
    ∃ l : Literal, l.Writes (ds.take k ++ '.' :: ds.drop k)
      ⟨Text.toNat ds, (k : Int) - ds.length⟩ := by
  apply writes_point
  · simp [hne]
    omega
  · exact fun c hc => hd c (List.mem_of_mem_take hc)
  · exact fun c hc => hd c (List.mem_of_mem_drop hc)
  · have hexp : -((ds.drop k).length : Int) = (k : Int) - ds.length := by
      rw [List.length_drop]
      omega
    rw [List.take_append_drop, hexp]

theorem writes_positional (e : Int) :
    ∃ l : Literal, l.Writes (positional ds ((ds.length : Int) - 1 + e)) ⟨Text.toNat ds, e⟩ := by
  have hpos : 0 < ds.length := List.length_pos_iff.2 hne
  generalize hlead : (ds.length : Int) - 1 + e = lead
  -- in each case the place of the point gives the exponent of the digits back
  unfold positional
  split
  · next hneg =>
    have hexp : -(((-lead - 1).toNat : Int) + ds.length) = e := by omega
    rw [← hexp]
    exact writes_before hd _
  · next hneg =>
    split
    · next hlen =>
      have hexp : ((lead.toNat + 1 - ds.length : Nat) : Int) = e := by omega
      rw [← hexp]
      exact writes_after hne hd _
    · next hlen =>
      have hexp : ((lead.toNat + 1 : Nat) : Int) - ds.length = e := by omega
      rw [← hexp]
      exact writes_inside hne hd (by omega) (by omega)

theorem writes_scientific (e : Int) :
    ∃ l : Literal, l.Writes (scientific ds ((ds.length : Int) - 1 + e)) ⟨Text.toNat ds, e⟩ := by
  obtain ⟨x, hx, htext, hvalue⟩ := exists_exponent ((ds.length : Int) - 1 + e)
  unfold scientific
  rw [← htext]
  split
  · exact absurd rfl hne
  · next c =>
    refine ⟨⟨none, [c], none, some x⟩, ?_, rfl, hne, ?_, ?_⟩
    · apply Literal.Valid.unsigned hne hd
      · intro f hf
        cases hf
      · intro y hy
        cases hy
        exact hx
    · simp [Literal.toText]
    · simp [Literal.toDecimal, hvalue]
  · next c rest hrest =>
    have hc : ∀ a ∈ [c], a.isDigit = true := by
      intro a ha
      rw [List.mem_singleton.1 ha]
      exact hd c List.mem_cons_self
    refine ⟨⟨none, [c], some rest, some x⟩, ?_, rfl, List.cons_ne_nil _ _, ?_, ?_⟩
    · apply Literal.Valid.unsigned (List.cons_ne_nil _ _) hc
      · intro f hf
        cases hf
        exact fun a ha => hd a (List.mem_cons_of_mem _ ha)
      · intro y hy
        cases hy
        exact hx
    · simp [Literal.toText]
    · simp [Literal.toDecimal, hvalue]

end Digits

/-- Every decimal is written as a literal of its value. -/
theorem writes_toText (d : Decimal) : ∃ l : Literal, l.Writes d.toText d := by
  have hne := Text.ofNat_ne_nil d.digits
  have hd := Text.isDigit_of_mem_ofNat (n := d.digits)
  have hpos := writes_positional hne hd d.exponent
  have hsci := writes_scientific hne hd d.exponent
  rw [Text.toNat_ofNat] at hpos hsci
  unfold toText
  dsimp only
  split
  · exact hpos
  · exact hsci

end Decimal

/-! ## Signs -/

/-- A sign before the literal is the sign of what it reads as. -/
theorem Literal.Writes.signed {l : Literal} {t : Text} {d : Decimal} (h : l.Writes t d)
    (negative : Bool) :
    ∃ l' : Literal, l'.Valid ∧ l'.toText = Binary64.signText negative ++ t ∧
      l'.toBinary64 = d.toBinary64 negative ∧ l'.whole ≠ [] ∧ l'.sign ≠ some '+' := by
  obtain ⟨sign, whole, fraction, exponent⟩ := l
  obtain ⟨hv, hsign, hne, rfl, hval⟩ := h
  cases hsign
  cases negative with
  | false =>
    exact ⟨_, hv, rfl, Decimal.toBinary64_congr false hval, hne, by simp⟩
  | true =>
    refine ⟨⟨some '-', whole, fraction, exponent⟩, ?_, ?_, ?_, hne, by simp⟩
    · refine ⟨?_, hv.whole, hv.fraction, hv.digit, hv.exponent⟩
      intro c hc
      cases hc
      decide
    · rw [toText_eq, toText_eq]
      rfl
    · exact Decimal.toBinary64_congr true hval

namespace Magnitude

theorem writes_magnitudeText (m : Magnitude) :
    ∃ (l : Literal) (d : Decimal), l.Writes (Binary64.magnitudeText m) d ∧
      ∀ negative, d.toBinary64 negative = .finite negative m := by
  unfold Binary64.magnitudeText
  split
  · next h0 =>
    have hd := Decimal.isDigit_of_mem_zeros (k := 1)
    obtain ⟨l, hl⟩ := Decimal.writes_after (List.cons_ne_nil '0' []) hd 0
    refine ⟨l, _, hl, fun negative => Decimal.toBinary64_of_value negative ?_⟩
    have hv : Decimal.value ⟨Text.toNat ['0'], (0 : Nat)⟩ = 0 := by
      simp [Decimal.value, Text.toNat]
    rw [h0, hv, zero_mul, Nat.cast_zero]
  · obtain ⟨l, hl⟩ := m.shortest.writes_toText
    exact ⟨l, _, hl, fun negative => m.toBinary64_shortest negative⟩

/-- A whole number that is written out has the value of its magnitude. -/
theorem value_floor {m : Magnitude} (h : m.isIntegral = true) :
    Decimal.value ⟨m.floor, 0⟩ * oneUnits = m.units := by
  have hmod : m.units % oneUnits = 0 := eq_of_beq h
  have hdiv : m.floor * oneUnits = m.units := Nat.div_mul_cancel (Nat.dvd_of_mod_eq_zero hmod)
  simp only [Decimal.value, zpow_zero, mul_one]
  exact_mod_cast hdiv

end Magnitude

namespace Binary64

/-- A finite double is written as a literal that reads back as it. -/
theorem exists_literal_format {v : Binary64} (h : v.isFinite = true) :
    ∃ l : Literal, l.Valid ∧ l.toText = v.format ∧ l.toBinary64 = v ∧ l.whole ≠ [] ∧
      l.sign ≠ some '+' := by
  cases v with
  | nan => cases h
  | inf s => cases h
  | finite negative m =>
    unfold format
    dsimp only
    split
    · next hplain =>
      obtain ⟨l, hl⟩ := Decimal.writes_ofNat m.floor
      obtain ⟨l', hv, ht, hb, hw⟩ := hl.signed negative
      rw [Decimal.toBinary64_of_value negative
        (Magnitude.value_floor (Bool.and_eq_true_iff.1 hplain).1)] at hb
      exact ⟨l', hv, ht, hb, hw⟩
    · obtain ⟨l, d, hl, hd⟩ := m.writes_magnitudeText
      obtain ⟨l', hv, ht, hb, hw⟩ := hl.signed negative
      exact ⟨l', hv, ht, hb.trans (hd negative), hw⟩

theorem toBinary64?_format {v : Binary64} (h : v.isFinite = true) :
    Text.toBinary64? v.format = some v := by
  obtain ⟨l, hv, ht, hb, _⟩ := exists_literal_format h
  rw [← ht, Text.toBinary64?, Literal.ofText?_toText hv, Option.map_some, hb]

end Binary64
end PrefixCalc
