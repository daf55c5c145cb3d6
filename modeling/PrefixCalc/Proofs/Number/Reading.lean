import PrefixCalc.Proofs.Number.Split
import PrefixCalc.Suite.NumberRule

/-! # Numbers as they are read

A number holds nothing that a reader of numbers drops or changes: no blank, no underscore and no
digit of another script. It is read alike in an expression, in a field and in an argument, as the
double nearest to what its digits write. -/

namespace PrefixCalc
set_option autoImplicit false

namespace Text

/-! ## The characters of a number -/

theorem mem_of_isNumber {t : Text} (h : isNumber t = true) {c : Char} (hc : c ∈ t) :
    c.isDigit = true ∨ c ∈ ['+', '-', '.', 'e', 'E'] := by
  obtain ⟨l, hl⟩ := Option.isSome_iff_exists.mp h
  obtain ⟨hvalid, rfl⟩ := Literal.valid_of_ofText? hl
  exact hvalid.mem_toText hc

def numberChars : Text := asciiDigits ++ ['+', '-', '.', 'e', 'E']

/-- A property of the characters of all numbers, checked one by one. -/
theorem forall_of_isNumber {P : Char → Prop} [DecidablePred P]
    (hP : numberChars.all (fun c => decide (P c)) = true) {t : Text} (h : isNumber t = true) :
    ∀ c ∈ t, P c := by
  intro c hc
  have hmem : c ∈ numberChars := by
    rw [numberChars, List.mem_append, ← isDigit_iff_mem]
    exact mem_of_isNumber h hc
  exact of_decide_eq_true (List.all_eq_true.mp hP c hmem)

/-! ## What readers drop or change -/

theorem trim_eq_self {blank : Char → Bool} {t : Text} (h : ∀ c ∈ t, blank c = false) :
    trim blank t = t := by
  have hstart : StopsAt blank t := fun c hc => h c (List.mem_of_mem_head? hc)
  have hend : StopsAt blank t.reverse := fun c hc =>
    h c (List.mem_reverse.mp (List.mem_of_mem_head? hc))
  rw [trim, dropWhile_of_stopsAt hstart, dropWhile_of_stopsAt hend, List.reverse_reverse]

theorem dropUnderscores?_eq_self {t : Text} (h : ∀ c ∈ t, c ≠ '_') (afterDigit : Bool) :
    dropUnderscores? afterDigit t = some t := by
  induction t generalizing afterDigit with
  | nil => rfl
  | cons c t ih =>
    obtain ⟨hc, ht⟩ := List.forall_mem_cons.mp h
    rw [dropUnderscores?, ih ht]
    · rfl
    · exact hc

theorem map_toAsciiDigit_eq_self {t : Text} (h : ∀ c ∈ t, toAsciiDigit c = c) :
    t.map toAsciiDigit = t := by
  rw [List.map_congr_left h, List.map_id']

section
variable {t : Text} (h : isNumber t = true)
include h

theorem literalOrSpecial?_of_isNumber : literalOrSpecial? t = toBinary64? t := by
  obtain ⟨v, hv⟩ := isNumber_iff_exists_toBinary64?.mp h
  rw [literalOrSpecial?, hv]

theorem fieldNumber?_of_isNumber : fieldNumber? t = toBinary64? t := by
  have htrim : trim isWhiteSpace t = t := trim_eq_self (forall_of_isNumber (by decide) h)
  obtain ⟨v, hv⟩ := isNumber_iff_exists_toBinary64?.mp h
  rw [fieldNumber?, htrim, literalOrSpecial?_of_isNumber h, hv, Option.some_or]

theorem argumentNumber?_of_isNumber : argumentNumber? t = toBinary64? t := by
  have hdigits : t.map toAsciiDigit = t :=
    map_toAsciiDigit_eq_self (forall_of_isNumber (by decide) h)
  have htrim : trim isSpace t = t := trim_eq_self (forall_of_isNumber (by decide) h)
  have hdrop : dropUnderscores? false t = some t :=
    dropUnderscores?_eq_self (forall_of_isNumber (by decide) h) false
  rw [argumentNumber?, hdigits, htrim, hdrop, Option.bind_eq_bind, Option.bind_some,
    literalOrSpecial?_of_isNumber h]

end

end Text

namespace NumberRule

/-- A text that is a literal reads as the number that it is in an expression. -/
def ReadsLiterals (rule : NumberRule) : Prop :=
  ∀ t v, Text.toBinary64? t = some v → rule (.text t) = .ok v

theorem standard_readsLiterals : standard.ReadsLiterals := by
  intro t v h
  have hnumber : Text.isNumber t = true := Text.isNumber_iff_exists_toBinary64?.mpr ⟨v, h⟩
  have hfield : Text.fieldNumber? t = some v := (Text.fieldNumber?_of_isNumber hnumber).trans h
  rw [standard, hfield]

end NumberRule

/-! ## The value of a literal -/

namespace Literal
variable {t : Text} {l : Literal}

/-- The text is read as the value in an expression, in a field of a suite under every rule that
reads literals, and in an argument. The value is a number with the sign of the literal, be it a
zero or an infinity, and is the double nearest to what the digits write. -/
structure ReadAs (t : Text) (l : Literal) (v : Binary64) : Prop where
  constant : Text.toBinary64? t = some v
  field : ∀ rule : NumberRule, rule.ReadsLiterals → rule (.text t) = .ok v
  argument : Text.argumentNumber? t = some v
  number : v.isNaN = false
  sign : v.isNegative = true ↔ l.sign = some '-'
  nearest : ∀ num den : Nat, 0 < den → (num : ℚ) = l.toDecimal.value * oneUnits * den →
    v = Binary64.ofRatio (decide (l.sign = some '-')) num den

theorem toBinary64_eq_ofRatio (l : Literal) :
    l.toBinary64 =
      .ofRatio (decide (l.sign = some '-')) l.toDecimal.ratio.1 l.toDecimal.ratio.2 := by
  rw [toBinary64, Decimal.toBinary64_eq_ofRatio, isNegative, beq_eq_decide]

theorem toBinary64_eq_ofRatio_of_value {num den : Nat} (hden : 0 < den)
    (h : (num : ℚ) = l.toDecimal.value * oneUnits * den) :
    l.toBinary64 = .ofRatio (decide (l.sign = some '-')) num den := by
  rw [l.toBinary64_eq_ofRatio]
  apply Binary64.ofRatio_congr
  apply roundUnits_eq_of_mul_eq l.toDecimal.ratio_pos hden
  have hq : (l.toDecimal.ratio.1 : ℚ) * den = num * l.toDecimal.ratio.2 := by
    rw [l.toDecimal.ratio_eq, h, mul_right_comm]
  exact_mod_cast hq

theorem Split.readAs (h : Split t l) : ReadAs t l l.toBinary64 := by
  have hread : Text.toBinary64? t = some l.toBinary64 := by
    rw [Text.toBinary64?, split_iff_ofText?.mp h, Option.map_some]
  have hnumber : Text.isNumber t = true := isNumber_iff_exists_split.mpr ⟨l, h⟩
  refine ⟨hread, ?_, ?_, ?_, ?_, ?_⟩
  · exact fun _ literals => literals t _ hread
  · rw [Text.argumentNumber?_of_isNumber hnumber, hread]
  · rw [l.toBinary64_eq_ofRatio, Binary64.isNaN_ofRatio]
  · rw [l.toBinary64_eq_ofRatio, Binary64.isNegative_ofRatio, decide_eq_true_eq]
  · intro num den hden hvalue
    exact toBinary64_eq_ofRatio_of_value hden hvalue

end Literal

/-- A text is a number if and only if the pattern of literals matches the whole of it, and if and
only if it splits into a sign, digits and an exponent as the grammar has them. It has one such
split at most, and by this split it is read, as an infinity or a zero where the digits are beyond
the finite doubles, with the sign that the literal has. All its characters are ASCII digits,
signs, points and marks of an exponent, so that no text with a blank, a bracket or a digit of
another script is a number. -/
theorem number_has_one_split (t : Text) :
    (Text.isNumber t = true ↔ t ∈ Literal.pattern.matches') ∧
    (Text.isNumber t = true ↔ ∃ l, Literal.Split t l) ∧
    (∀ l l', Literal.Split t l → Literal.Split t l' → l = l') ∧
    (∀ l, Literal.Split t l → ∃ v, Literal.ReadAs t l v) ∧
    (Text.isNumber t = true → ∀ c ∈ t, c.isDigit = true ∨ c ∈ ['+', '-', '.', 'e', 'E']) ∧
    ∀ c ∈ t, Text.isBlank c = true ∨ Text.isWhiteSpace c = true ∨ Text.isBracket c = true ∨
      128 ≤ c.toNat → Text.isNumber t = false := by
  refine ⟨?_, Literal.isNumber_iff_exists_split, ?_, ?_, ?_, ?_⟩
  · rw [Literal.isNumber_iff_exists_split, Literal.mem_pattern]
  · intro l l' h h'
    exact h.unique h'
  · intro l h
    exact ⟨l.toBinary64, h.readAs⟩
  · intro h c hc
    exact Text.mem_of_isNumber h hc
  · intro c hc hforeign
    rw [Bool.eq_false_iff]
    intro h
    revert hforeign
    exact Text.forall_of_isNumber
      (P := fun c => ¬ (Text.isBlank c = true ∨ Text.isWhiteSpace c = true ∨
        Text.isBracket c = true ∨ 128 ≤ c.toNat)) (by decide) h c hc

example : Text.toBinary64? "-1.e400".toList = some (.inf true) := by decide

example : Text.toBinary64? "-.5e-400".toList = some (.finite true .zero) := by decide

end PrefixCalc
