import Mathlib.Computability.RegularExpressions
import PrefixCalc.Number.Input
import PrefixCalc.Proofs.Number.Decimal
import PrefixCalc.Proofs.Number.Literal

/-! # The parts of a number

`Literal.Split` is the grammar of literals: a text is an optional sign, digits with a point
among them, behind them or before them, and an optional exponent. `Literal.pattern` is the same
grammar as a regular expression, which says nothing of the parts. A text is a number if and only
if it has a split, and if and only if the pattern matches it; no text has two splits. -/

namespace PrefixCalc
set_option autoImplicit false

namespace Text

/-- One or more digits. -/
structure IsDigits (t : Text) : Prop where
  ne_nil : t ≠ []
  isDigit : ∀ c ∈ t, c.isDigit = true

def asciiDigits : Text := ['0', '1', '2', '3', '4', '5', '6', '7', '8', '9']

theorem isDigit_iff_mem {c : Char} : c.isDigit = true ↔ c ∈ asciiDigits := by
  constructor
  · intro h
    rw [Char.isDigit_iff_toNat] at h
    have hlo : 48 ≤ c.toNat := h.1
    have hhi : c.toNat ≤ 57 := h.2
    -- the code point is one of ten, and each of them is looked up
    have hdigits : ∀ n : Fin 10, Char.ofNat (48 + n.val) ∈ asciiDigits := by decide
    have hc := hdigits ⟨c.toNat - 48, by omega⟩
    rwa [Nat.add_sub_cancel' hlo, Char.ofNat_toNat] at hc
  · exact List.all_eq_true.mp (by decide) c

end Text

namespace Literal

/-! ## The grammar -/

inductive OptionalSign : Text → Option Char → Prop where
  | absent : OptionalSign [] none
  | plus : OptionalSign ['+'] (some '+')
  | minus : OptionalSign ['-'] (some '-')

/-- The digits of a literal: those before the point, and those after it if there is a point. -/
inductive Mantissa : Text → Text → Option Text → Prop where
  | whole {whole : Text} (digits : Text.IsDigits whole) : Mantissa whole whole none
  | point {whole fraction : Text} (digits : Text.IsDigits whole)
      (more : ∀ c ∈ fraction, c.isDigit = true) :
      Mantissa (whole ++ '.' :: fraction) whole (some fraction)
  | fraction {fraction : Text} (digits : Text.IsDigits fraction) :
      Mantissa ('.' :: fraction) [] (some fraction)

inductive OptionalExponent : Text → Option Exponent → Prop where
  | absent : OptionalExponent [] none
  | present {mark : Char} {s digits : Text} {sign : Option Char} (hmark : mark = 'e' ∨ mark = 'E')
      (hsign : OptionalSign s sign) (hdigits : Text.IsDigits digits) :
      OptionalExponent (mark :: (s ++ digits)) (some ⟨mark, sign, digits⟩)

/-- The text falls into the parts of the literal, with nothing left over. -/
inductive Split : Text → Literal → Prop where
  | parts {s m x : Text} {sign : Option Char} {whole : Text} {fraction : Option Text}
      {exponent : Option Exponent} (hsign : OptionalSign s sign)
      (hmantissa : Mantissa m whole fraction) (hexponent : OptionalExponent x exponent) :
      Split (s ++ (m ++ x)) ⟨sign, whole, fraction, exponent⟩

/-! ## Splits are valid literals -/

theorem optionalSign_iff {t : Text} {sign : Option Char} :
    OptionalSign t sign ↔ t = sign.toList ∧ ∀ c, sign = some c → Text.isSign c = true := by
  constructor
  · intro h
    cases h with
    | absent =>
      refine ⟨rfl, ?_⟩
      rintro c ⟨⟩
    | plus =>
      refine ⟨rfl, ?_⟩
      rintro c ⟨⟩
      decide
    | minus =>
      refine ⟨rfl, ?_⟩
      rintro c ⟨⟩
      decide
  · rintro ⟨rfl, h⟩
    cases sign with
    | none => exact .absent
    | some c =>
      rcases Bool.or_eq_true_iff.mp (h c rfl) with hc | hc
      · rw [eq_of_beq hc]
        exact .plus
      · rw [eq_of_beq hc]
        exact .minus

theorem mantissa_iff {t whole : Text} {fraction : Option Text} :
    Mantissa t whole fraction ↔ t = whole ++ fractionText fraction ∧
      (∀ c ∈ whole, c.isDigit = true) ∧
      (∀ f, fraction = some f → ∀ c ∈ f, c.isDigit = true) ∧
      (whole ≠ [] ∨ ∃ f, fraction = some f ∧ f ≠ []) := by
  constructor
  · intro h
    cases h with
    | whole digits =>
      refine ⟨(List.append_nil t).symm, digits.isDigit, ?_, Or.inl digits.ne_nil⟩
      intro f hf
      cases hf
    | point digits more =>
      refine ⟨rfl, digits.isDigit, ?_, Or.inl digits.ne_nil⟩
      intro f hf
      cases hf
      exact more
    | @fraction ds digits =>
      refine ⟨rfl, ?_, ?_, Or.inr ⟨ds, rfl, digits.ne_nil⟩⟩
      · intro c hc
        cases hc
      · intro f hf
        cases hf
        exact digits.isDigit
  · rintro ⟨rfl, hwhole, hfraction, hdigit⟩
    cases fraction with
    | none =>
      have hne : whole ≠ [] := by
        refine hdigit.resolve_right ?_
        rintro ⟨f, hf, _⟩
        cases hf
      rw [fractionText, List.append_nil]
      exact .whole ⟨hne, hwhole⟩
    | some f =>
      by_cases hne : whole = []
      · -- no digit before the point, so that there is one behind it
        obtain ⟨g, hg, hgne⟩ := hdigit.resolve_left (fun h => h hne)
        cases hg
        rw [hne]
        exact .fraction ⟨hgne, hfraction f rfl⟩
      · exact .point ⟨hne, hwhole⟩ (hfraction f rfl)

theorem optionalExponent_iff {t : Text} {exponent : Option Exponent} :
    OptionalExponent t exponent ↔
      t = exponentText exponent ∧ ∀ e, exponent = some e → e.Valid := by
  constructor
  · intro h
    cases h with
    | absent =>
      refine ⟨rfl, ?_⟩
      intro e he
      cases he
    | present hmark hsign hdigits =>
      obtain ⟨rfl, hvalid⟩ := optionalSign_iff.mp hsign
      refine ⟨rfl, ?_⟩
      intro e he
      cases he
      exact ⟨hmark, hvalid, hdigits.ne_nil, hdigits.isDigit⟩
  · rintro ⟨rfl, h⟩
    cases exponent with
    | none => exact .absent
    | some e =>
      obtain ⟨hmark, hsign, hne, hdigits⟩ := h e rfl
      exact .present hmark (optionalSign_iff.mpr ⟨rfl, hsign⟩) ⟨hne, hdigits⟩

theorem split_iff {t : Text} {l : Literal} : Split t l ↔ l.Valid ∧ l.toText = t := by
  constructor
  · rintro ⟨hsign, hmantissa, hexponent⟩
    obtain ⟨rfl, hs⟩ := optionalSign_iff.mp hsign
    obtain ⟨rfl, hwhole, hfraction, hdigit⟩ := mantissa_iff.mp hmantissa
    obtain ⟨rfl, hx⟩ := optionalExponent_iff.mp hexponent
    refine ⟨⟨hs, hwhole, hfraction, hdigit, hx⟩, ?_⟩
    rw [toText_eq, List.append_assoc]
  · rintro ⟨h, rfl⟩
    rw [toText_eq, ← List.append_assoc l.whole]
    exact .parts (optionalSign_iff.mpr ⟨rfl, h.sign⟩)
      (mantissa_iff.mpr ⟨rfl, h.whole, h.fraction, h.digit⟩)
      (optionalExponent_iff.mpr ⟨rfl, h.exponent⟩)

/-- A text has the split that is read from it, and no other. -/
theorem split_iff_ofText? {t : Text} {l : Literal} : Split t l ↔ ofText? t = some l := by
  rw [split_iff]
  constructor
  · rintro ⟨h, rfl⟩
    exact ofText?_toText h
  · exact valid_of_ofText?

theorem Split.unique {t : Text} {l l' : Literal} (h : Split t l) (h' : Split t l') : l = l' := by
  rw [split_iff_ofText?] at h h'
  exact Option.some.inj (h.symm.trans h')

theorem isNumber_iff_exists_split {t : Text} :
    Text.isNumber t = true ↔ ∃ l, Split t l := by
  rw [Text.isNumber, Option.isSome_iff_exists]
  exact exists_congr fun _ => split_iff_ofText?.symm

end Literal

/-! ## Patterns -/

/-- A regular expression on the characters of a text. -/
abbrev Pattern := RegularExpression Char

namespace Pattern
open RegularExpression

def oneOf (cs : Text) : Pattern := (cs.map char).sum

def optional (p : Pattern) : Pattern := 1 + p

/-- Once or more. -/
def repeated (p : Pattern) : Pattern := p * p.star

variable {cs t : Text} {p q : Pattern}

theorem mem_oneOf : t ∈ (oneOf cs).matches' ↔ ∃ c ∈ cs, t = [c] := by
  induction cs with
  | nil => simp [oneOf, Language.notMem_zero]
  | cons a cs ih =>
    have hsum : oneOf (a :: cs) = char a + oneOf cs := by
      rw [oneOf, List.map_cons, List.sum_cons]
      rfl
    rw [hsum, matches'_add, Language.mem_add, ih, List.exists_mem_cons_iff]
    exact Iff.rfl

theorem mem_optional : t ∈ (optional p).matches' ↔ t = [] ∨ t ∈ p.matches' := by
  rw [optional, matches'_add, Language.mem_add, matches'_epsilon, Language.mem_one]

theorem mem_mul :
    t ∈ (p * q).matches' ↔ ∃ u ∈ p.matches', ∃ v ∈ q.matches', u ++ v = t := by
  rw [matches'_mul, Language.mem_mul]

theorem mem_char_mul {c : Char} :
    t ∈ (char c * p).matches' ↔ ∃ u ∈ p.matches', t = c :: u := by
  rw [mem_mul]
  constructor
  · rintro ⟨_, rfl, u, hu, rfl⟩
    exact ⟨u, hu, rfl⟩
  · rintro ⟨u, hu, rfl⟩
    exact ⟨[c], rfl, u, hu, rfl⟩

theorem mem_star_oneOf : t ∈ (oneOf cs).star.matches' ↔ ∀ c ∈ t, c ∈ cs := by
  rw [matches'_star, Language.mem_kstar]
  constructor
  · rintro ⟨ts, rfl, hts⟩ c hc
    obtain ⟨u, hu, hcu⟩ := List.mem_flatten.mp hc
    obtain ⟨a, ha, rfl⟩ := mem_oneOf.mp (hts u hu)
    rwa [List.mem_singleton.mp hcu]
  · intro h
    refine ⟨t.map List.singleton, ?_, ?_⟩
    · rw [← List.flatMap_def]
      exact (List.flatMap_singleton' t).symm
    · intro u hu
      obtain ⟨c, hc, rfl⟩ := List.mem_map.mp hu
      exact mem_oneOf.mpr ⟨c, h c hc, rfl⟩

theorem mem_repeated_oneOf :
    t ∈ (repeated (oneOf cs)).matches' ↔ t ≠ [] ∧ ∀ c ∈ t, c ∈ cs := by
  rw [repeated, mem_mul]
  constructor
  · rintro ⟨u, hu, v, hv, rfl⟩
    obtain ⟨c, hc, rfl⟩ := mem_oneOf.mp hu
    refine ⟨List.cons_ne_nil c v, ?_⟩
    intro a ha
    rcases List.mem_cons.mp ha with rfl | ha
    · exact hc
    · exact mem_star_oneOf.mp hv a ha
  · rintro ⟨hne, h⟩
    obtain ⟨c, u, rfl⟩ := List.exists_cons_of_ne_nil hne
    refine ⟨[c], mem_oneOf.mpr ⟨c, h c List.mem_cons_self, rfl⟩, u, ?_, rfl⟩
    exact mem_star_oneOf.mpr fun a ha => h a (List.mem_cons_of_mem c ha)

end Pattern

namespace Literal
open RegularExpression Pattern
variable {t : Text}

/-! ## The pattern of literals -/

def signPattern : Pattern := optional (oneOf ['+', '-'])

def digitPattern : Pattern := oneOf Text.asciiDigits

def mantissaPattern : Pattern :=
  repeated digitPattern * optional (char '.' * digitPattern.star) +
    char '.' * repeated digitPattern

def exponentPattern : Pattern :=
  optional (oneOf ['e', 'E'] * (signPattern * repeated digitPattern))

def pattern : Pattern := signPattern * (mantissaPattern * exponentPattern)

theorem mem_repeated_digit : t ∈ (repeated digitPattern).matches' ↔ Text.IsDigits t := by
  rw [digitPattern, mem_repeated_oneOf]
  simp only [← Text.isDigit_iff_mem]
  exact ⟨fun h => ⟨h.1, h.2⟩, fun h => ⟨h.ne_nil, h.isDigit⟩⟩

theorem mem_star_digit :
    t ∈ digitPattern.star.matches' ↔ ∀ c ∈ t, c.isDigit = true := by
  rw [digitPattern, mem_star_oneOf]
  simp only [← Text.isDigit_iff_mem]

theorem mem_signPattern :
    t ∈ signPattern.matches' ↔ ∃ sign, OptionalSign t sign := by
  rw [signPattern, mem_optional, mem_oneOf]
  constructor
  · rintro (rfl | ⟨c, hc, rfl⟩)
    · exact ⟨none, .absent⟩
    · rcases List.mem_pair.mp hc with rfl | rfl
      · exact ⟨some '+', .plus⟩
      · exact ⟨some '-', .minus⟩
  · rintro ⟨sign, h⟩
    cases h with
    | absent => exact Or.inl rfl
    | plus => exact Or.inr ⟨'+', by decide, rfl⟩
    | minus => exact Or.inr ⟨'-', by decide, rfl⟩

theorem mem_mantissaPattern :
    t ∈ mantissaPattern.matches' ↔ ∃ whole fraction, Mantissa t whole fraction := by
  rw [mantissaPattern, matches'_add, Language.mem_add, mem_mul, mem_char_mul]
  constructor
  · rintro (⟨whole, hwhole, u, hu, rfl⟩ | ⟨fraction, hfraction, rfl⟩)
    · rw [mem_repeated_digit] at hwhole
      rcases mem_optional.mp hu with rfl | hu
      · rw [List.append_nil]
        exact ⟨whole, none, .whole hwhole⟩
      · obtain ⟨fraction, hfraction, rfl⟩ := mem_char_mul.mp hu
        exact ⟨whole, some fraction, .point hwhole (mem_star_digit.mp hfraction)⟩
    · exact ⟨[], some fraction, .fraction (mem_repeated_digit.mp hfraction)⟩
  · rintro ⟨whole, fraction, h⟩
    cases h with
    | whole digits =>
      left
      exact ⟨t, mem_repeated_digit.mpr digits, [], mem_optional.mpr (Or.inl rfl),
        List.append_nil t⟩
    | @point _ fs digits more =>
      left
      have hpoint : '.' :: fs ∈ (char '.' * digitPattern.star).matches' :=
        mem_char_mul.mpr ⟨fs, mem_star_digit.mpr more, rfl⟩
      exact ⟨whole, mem_repeated_digit.mpr digits, '.' :: fs,
        mem_optional.mpr (Or.inr hpoint), rfl⟩
    | @fraction fs digits =>
      right
      exact ⟨fs, mem_repeated_digit.mpr digits, rfl⟩

theorem mem_exponentPattern :
    t ∈ exponentPattern.matches' ↔ ∃ exponent, OptionalExponent t exponent := by
  rw [exponentPattern, mem_optional, mem_mul]
  constructor
  · rintro (rfl | ⟨m, hm, u, hu, rfl⟩)
    · exact ⟨none, .absent⟩
    · obtain ⟨mark, hmark, rfl⟩ := mem_oneOf.mp hm
      obtain ⟨s, hs, digits, hdigits, rfl⟩ := mem_mul.mp hu
      obtain ⟨sign, hsign⟩ := mem_signPattern.mp hs
      exact ⟨some ⟨mark, sign, digits⟩,
        .present (List.mem_pair.mp hmark) hsign (mem_repeated_digit.mp hdigits)⟩
  · rintro ⟨exponent, h⟩
    cases h with
    | absent => exact Or.inl rfl
    | @present mark s digits sign hmark hsign hdigits =>
      right
      have hm : [mark] ∈ (oneOf ['e', 'E']).matches' :=
        mem_oneOf.mpr ⟨mark, List.mem_pair.mpr hmark, rfl⟩
      have hu : s ++ digits ∈ (signPattern * repeated digitPattern).matches' :=
        mem_mul.mpr ⟨s, mem_signPattern.mpr ⟨sign, hsign⟩, digits,
          mem_repeated_digit.mpr hdigits, rfl⟩
      exact ⟨[mark], hm, s ++ digits, hu, rfl⟩

/-- The pattern matches the texts that have a split. -/
theorem mem_pattern : t ∈ pattern.matches' ↔ ∃ l, Split t l := by
  rw [pattern, mem_mul]
  constructor
  · rintro ⟨s, hs, u, hu, rfl⟩
    obtain ⟨m, hm, x, hx, rfl⟩ := mem_mul.mp hu
    obtain ⟨sign, hsign⟩ := mem_signPattern.mp hs
    obtain ⟨whole, fraction, hmantissa⟩ := mem_mantissaPattern.mp hm
    obtain ⟨exponent, hexponent⟩ := mem_exponentPattern.mp hx
    exact ⟨⟨sign, whole, fraction, exponent⟩, .parts hsign hmantissa hexponent⟩
  · rintro ⟨l, h⟩
    cases h with
    | @parts s m x sign whole fraction exponent hsign hmantissa hexponent =>
      have hm := mem_mantissaPattern.mpr ⟨whole, fraction, hmantissa⟩
      have hx := mem_exponentPattern.mpr ⟨exponent, hexponent⟩
      exact ⟨s, mem_signPattern.mpr ⟨sign, hsign⟩, m ++ x, mem_mul.mpr ⟨m, hm, x, hx, rfl⟩, rfl⟩

end Literal
end PrefixCalc
