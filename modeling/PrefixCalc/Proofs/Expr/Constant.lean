import PrefixCalc.Proofs.Expr.RoundTrip
import PrefixCalc.Proofs.Number.Order

/-! # Constants as they are written

A double is written as one word that is neither a name nor a symbol. It is a number that starts
a constant if and only if the double is finite, and is read as this double then. A whole number
below 10^16 is written with its decimal digits alone. No two doubles are written alike. -/

namespace PrefixCalc
set_option autoImplicit false

/-- The digits of a positive number do not start with a zero. -/
theorem Text.head?_ofNat_ne_zero {n : Nat} (h : 0 < n) : (ofNat n).head? ≠ some '0' := by
  induction n using Nat.strongRecOn with
  | ind n ih =>
    rw [ofNat, Nat.toDigits_eq_if (by decide)]
    split
    · next hlt =>
      have hdigit : ∀ d : Fin 10, 0 < d.val → d.val.digitChar ≠ '0' := by decide
      intro hc
      exact hdigit ⟨n, hlt⟩ h (Option.some.inj hc)
    · next hge =>
      rw [List.head?_append_of_ne_nil _ (Nat.toDigits_ne_nil (n := n / 10))]
      apply ih
      · omega
      · omega

namespace Binary64
variable {v w : Binary64}

theorem isNumber_format_iff : Text.isNumber v.format = true ↔ v.isFinite = true := by
  constructor
  · intro h
    exact isFinite_of_isToken (isToken_of_startsOperand (startsOperand_of_isNumber h))
  · intro h
    exact isNumber_of_toBinary64? (toBinary64?_format h)

theorem format_ne_name (v : Binary64) (i : Variable) : v.format ≠ i.name := by
  intro heq
  have hv : Text.isToken v.format = true := by
    rw [heq]
    exact isToken_of_startsOperand (startsOperand_name i)
  have hstart := startsConst_format (isFinite_of_isToken hv)
  rw [heq, startsConst_name] at hstart
  cases hstart

theorem ofName?_format (v : Binary64) : Variable.ofName? v.format = none := by
  cases hi : Variable.ofName? v.format with
  | none => rfl
  | some i => exact absurd (Variable.name_of_ofName? hi).symm (v.format_ne_name i)

theorem format_ne_symbol (v : Binary64) (op : Operator) : v.format ≠ op.symbol := by
  intro heq
  have hv : Text.isToken v.format = true := by
    rw [heq]
    exact isToken_symbol op
  have hnumber := toBinary64?_format (isFinite_of_isToken hv)
  have hop := ofSymbol?_of_toBinary64? hnumber
  rw [heq, Operator.ofSymbol?_symbol] at hop
  cases hop

theorem format_ne_bracket (v : Binary64) {c : Char} (h : Text.isBracket c = true) :
    v.format ≠ [c] := by
  intro heq
  have hc := v.isWord_of_mem_format c (by rw [heq]; exact List.mem_singleton_self c)
  rw [(Text.isWord_iff.mp hc).2] at h
  cases h

/-- A finite double is read back, and the three others are written in three ways. -/
theorem format_inj (h : v.format = w.format) : v = w := by
  by_cases hv : v.isFinite = true
  · have hw : w.isFinite = true := by
      rw [← isNumber_format_iff, ← h]
      exact isNumber_format_iff.mpr hv
    have hread := toBinary64?_format hv
    rw [h, toBinary64?_format hw] at hread
    exact (Option.some.inj hread).symm
  · have hw : ¬ w.isFinite = true := by
      rwa [← isNumber_format_iff, ← h, isNumber_format_iff]
    cases v with
    | finite s m => exact absurd rfl hv
    | nan =>
      cases w with
      | finite t n => exact absurd rfl hw
      | nan => rfl
      | inf t => cases t <;> exact absurd h (by decide)
    | inf s =>
      cases w with
      | finite t n => exact absurd rfl hw
      | nan => cases s <;> exact absurd h (by decide)
      | inf t =>
        have hsign : s = t := by
          revert h
          cases s <;> cases t <;> decide
        rw [hsign]

/-- A whole number below 10^16 is written with the digits of the integer. -/
theorem format_of_units {m : Magnitude} {n : Nat} (s : Bool) (hlt : n < tenPow 16)
    (h : m.units = n * oneUnits) : format (.finite s m) = signText s ++ Text.ofNat n := by
  have hintegral : m.isIntegral = true := by
    rw [Magnitude.isIntegral, h, Nat.mul_mod_left]
    rfl
  have hfloor : m.floor = n := by
    rw [Magnitude.floor, h, Nat.mul_div_cancel _ oneUnits_pos]
  have hplain : decide (n < plainBound) = true := decide_eq_true hlt
  rw [format, hintegral, hfloor, hplain]
  rfl

/-- The integer of a place is that of the magnitude with the sign. -/
theorem units_of_place {s : Bool} {m : Magnitude} {i : Int} (hi : i ≠ 0)
    (h : (finite s m).place = i * oneUnits) :
    m.units = i.natAbs * oneUnits ∧ s = decide (i < 0) := by
  have hone := oneUnits_pos
  change signedUnits s m = i * oneUnits at h
  generalize oneUnits = one at h hone
  constructor
  · rw [← natAbs_signedUnits s m, h, Int.natAbs_mul, Int.natAbs_natCast]
  · have hone' : (0 : Int) < one := Int.natCast_pos.mpr hone
    cases s with
    | false =>
      have hnonneg : 0 ≤ i * one := by
        rw [← h]
        exact Int.natCast_nonneg _
      have := nonneg_of_mul_nonneg_left hnonneg hone'
      simp
      omega
    | true =>
      have hnonpos : i * one ≤ 0 := by
        rw [← h]
        exact Int.neg_nonpos_of_nonneg (Int.natCast_nonneg _)
      have := nonpos_of_mul_nonpos_left hnonpos hone'
      simp
      omega

end Binary64

/-- A double is written as one word, neither a name nor a symbol. It is a number that starts a
constant if and only if the double is finite, and then it is read as this double and parsed to
this constant. A whole number below 10^16 is written with its digits behind its sign, the first
of them no zero. Different doubles are written differently. -/
theorem format_reads_back (v : Binary64) :
    v.format ≠ [] ∧ (∀ c ∈ v.format, Text.isBlank c = false ∧ Text.isBracket c = false) ∧
    (∀ i : Variable, v.format ≠ i.name) ∧ (∀ op : Operator, v.format ≠ op.symbol) ∧
    (Text.isNumber v.format = true ∧
        (∃ c, v.format.head? = some c ∧ (c.isDigit = true ∨ c = '-')) ↔ v.isFinite = true) ∧
    (v.isFinite = true →
      Text.toBinary64? v.format = some v ∧ parse v.format = .ok (.const v)) ∧
    (∀ i : Int, i ≠ 0 → i.natAbs < tenPow 16 → v.isFinite = true → v.place = i * oneUnits →
      ∃ digits : Text, v.format = Binary64.signText (decide (i < 0)) ++ digits ∧
        (∀ c ∈ digits, c.isDigit = true) ∧ digits.head? ≠ some '0' ∧
        Text.toNat digits = i.natAbs) ∧
    ∀ w : Binary64, v.format = w.format → v = w := by
  refine ⟨v.format_ne_nil, ?_, v.format_ne_name, v.format_ne_symbol, ?_, ?_, ?_, ?_⟩
  · intro c hc
    exact Text.isWord_iff.mp (v.isWord_of_mem_format c hc)
  · rw [← Text.startsConst_iff, Binary64.isNumber_format_iff]
    exact and_iff_left_of_imp Binary64.startsConst_format
  · intro hv
    refine ⟨Binary64.toBinary64?_format hv, ?_⟩
    have hwords := Expr.words_toPrefix (.const v)
    rw [Expr.toPrefix, Expr.prefixWords] at hwords
    rw [parse_eq_ok_iff, hwords]
    exact derives_format hv
  · intro i hi hlt hv hplace
    cases v with
    | nan => cases hv
    | inf s => cases hv
    | finite s m =>
      obtain ⟨hunits, rfl⟩ := Binary64.units_of_place hi hplace
      refine ⟨Text.ofNat i.natAbs, Binary64.format_of_units _ hlt hunits,
        Text.isDigit_of_mem_ofNat, ?_, Text.toNat_ofNat _⟩
      apply Text.head?_ofNat_ne_zero
      omega
  · intro w h
    exact Binary64.format_inj h

end PrefixCalc
