import PrefixCalc.Number.Literal
import PrefixCalc.Proofs.Lexeme.Tiling

/-! # Texts of literals

A valid literal is what its text is taken apart into, and its text holds no blank and no
bracket. The digits of a number are read back as the number, with zeros at their start or
without. -/

namespace PrefixCalc
set_option autoImplicit false

namespace Text

theorem isSign_of_isDigit {c : Char} (h : c.isDigit = true) : isSign c = false := by
  rw [Char.isDigit_iff_toNat] at h
  rw [Bool.eq_false_iff]
  intro hs
  rcases Bool.or_eq_true_iff.1 hs with hs | hs
  all_goals
    rw [eq_of_beq hs] at h
    revert h
    decide

theorem isWord_of_isDigit {c : Char} (h : c.isDigit = true) : isWord c = true := by
  rw [Char.isDigit_iff_toNat] at h
  have hlo : 48 ≤ c.toNat := h.1
  have hhi : c.toNat ≤ 57 := h.2
  have hopen : c ≠ '(' := by
    rintro rfl
    revert hlo
    decide
  have hclose : c ≠ ')' := by
    rintro rfl
    revert hlo
    decide
  simp [isWord, isBlank, isBracket, hopen, hclose]
  omega

theorem toNat_ofNat (n : Nat) : toNat (ofNat n) = n := Nat.ofDigitChars_ten_toDigits

theorem toNat_zeros_append (k : Nat) (t : Text) : toNat (List.replicate k '0' ++ t) = toNat t := by
  have h : Nat.ofDigitChars 10 (List.replicate k '0' ++ t) 0 = Nat.ofDigitChars 10 t 0 := by
    rw [Nat.ofDigitChars_append, Nat.ofDigitChars_replicate_zero, Nat.mul_zero]
  exact h

theorem toNat_append_zeros (t : Text) (k : Nat) :
    toNat (t ++ List.replicate k '0') = tenPow k * toNat t := by
  have h : Nat.ofDigitChars 10 (t ++ List.replicate k '0') 0 =
      tenPow k * Nat.ofDigitChars 10 t 0 := by
    rw [Nat.ofDigitChars_append, Nat.ofDigitChars_replicate_zero]
    rfl
  exact h

theorem isDigit_of_mem_ofNat {n : Nat} : ∀ c ∈ ofNat n, c.isDigit = true := fun _ hc =>
  Nat.isDigit_of_mem_toDigits (by decide) (by decide) hc

theorem ofNat_ne_nil (n : Nat) : ofNat n ≠ [] := Nat.toDigits_ne_nil

end Text

namespace Literal

/-! ## Taking a literal apart -/

def fractionText : Option Text → Text
  | some f => '.' :: f
  | none => []

def exponentText : Option Exponent → Text
  | some e => e.toText
  | none => []

theorem toText_eq (l : Literal) :
    l.toText =
      l.sign.toList ++ (l.whole ++ (fractionText l.fraction ++ exponentText l.exponent)) := by
  obtain ⟨sign, whole, fraction, exponent⟩ := l
  cases fraction <;> cases exponent <;> simp [toText, fractionText, exponentText]

theorem splitSign_append {sign : Option Char} {t : Text}
    (hs : ∀ c, sign = some c → Text.isSign c = true) (ht : Text.StopsAt Text.isSign t) :
    splitSign (sign.toList ++ t) = (sign, t) := by
  cases sign with
  | some c => simp [splitSign, hs c rfl]
  | none =>
    cases t with
    | nil => rfl
    | cons c t => simp [splitSign, ht c rfl]

theorem splitDigits_append {ds t : Text} (hd : ∀ c ∈ ds, c.isDigit = true)
    (ht : Text.StopsAt Char.isDigit t) : splitDigits (ds ++ t) = (ds, t) := by
  rw [splitDigits, Text.takeWhile_append_stop hd ht, Text.dropWhile_append_stop hd ht]

theorem stopsAt_isSign_of_isDigit {ds t : Text} (hne : ds ≠ [])
    (hd : ∀ c ∈ ds, c.isDigit = true) : Text.StopsAt Text.isSign (ds ++ t) := by
  obtain ⟨a, u, rfl⟩ := List.exists_cons_of_ne_nil hne
  intro c hc
  cases Option.mem_def.1 hc
  exact Text.isSign_of_isDigit (hd _ List.mem_cons_self)

theorem Exponent.Valid.mark_not_isDigit {e : Exponent} (h : e.Valid) : e.mark.isDigit = false := by
  rcases h.mark with h | h <;> rw [h] <;> decide

theorem Exponent.Valid.mark_ne_point {e : Exponent} (h : e.Valid) : e.mark ≠ '.' := by
  rcases h.mark with h | h <;> rw [h] <;> decide

theorem exponentOf?_exponentText {exponent : Option Exponent}
    (h : ∀ e, exponent = some e → e.Valid) :
    exponentOf? (exponentText exponent) = some exponent := by
  cases exponent with
  | none => rfl
  | some e =>
    obtain ⟨hmark, hsign, hne, hd⟩ := h e rfl
    have hsplit : splitSign (e.sign.toList ++ e.digits) = (e.sign, e.digits) := by
      apply splitSign_append hsign
      have := stopsAt_isSign_of_isDigit (t := []) hne hd
      rwa [List.append_nil] at this
    simp only [exponentText, Exponent.toText, exponentOf?, hsplit]
    exact if_pos ⟨hmark, hne, List.all_eq_true.2 hd⟩

theorem stopsAt_exponentText {exponent : Option Exponent}
    (h : ∀ e, exponent = some e → e.Valid) :
    Text.StopsAt Char.isDigit (exponentText exponent) := by
  intro c hc
  cases exponent with
  | none => cases hc
  | some e =>
    cases Option.mem_def.1 hc
    exact (h e rfl).mark_not_isDigit

theorem splitFraction_append {fraction : Option Text} {exponent : Option Exponent}
    (hf : ∀ f, fraction = some f → ∀ c ∈ f, c.isDigit = true)
    (he : ∀ e, exponent = some e → e.Valid) :
    splitFraction (fractionText fraction ++ exponentText exponent) =
      (fraction, exponentText exponent) := by
  cases fraction with
  | some f =>
    simp only [fractionText, List.cons_append, splitFraction,
      splitDigits_append (hf f rfl) (stopsAt_exponentText he)]
  | none =>
    cases exponent with
    | none => rfl
    | some e =>
      have hmark := (he e rfl).mark_ne_point
      simp [fractionText, exponentText, Exponent.toText, splitFraction, hmark]

theorem stopsAt_fractionText {fraction : Option Text} {exponent : Option Exponent}
    (he : ∀ e, exponent = some e → e.Valid) :
    Text.StopsAt Char.isDigit (fractionText fraction ++ exponentText exponent) := by
  cases fraction with
  | none => exact stopsAt_exponentText he
  | some f =>
    intro c hc
    cases Option.mem_def.1 hc
    decide

theorem Valid.hasDigit {l : Literal} (h : l.Valid) : hasDigit l.whole l.fraction = true := by
  rcases h.digit with hw | ⟨f, hf, hne⟩
  · simp [Literal.hasDigit, hw]
  · simp [Literal.hasDigit, hf, hne]

theorem Valid.stopsAt_isSign {l : Literal} (h : l.Valid) :
    Text.StopsAt Text.isSign
      (l.whole ++ (fractionText l.fraction ++ exponentText l.exponent)) := by
  by_cases hw : l.whole = []
  · obtain ⟨f, hf, _⟩ := h.digit.resolve_left (fun hn => hn hw)
    rw [hw, hf]
    intro c hc
    cases Option.mem_def.1 hc
    decide
  · exact stopsAt_isSign_of_isDigit hw h.whole

theorem Valid.unsigned {whole : Text} {fraction : Option Text} {exponent : Option Exponent}
    (hne : whole ≠ []) (hw : ∀ c ∈ whole, c.isDigit = true)
    (hf : ∀ f, fraction = some f → ∀ c ∈ f, c.isDigit = true)
    (he : ∀ e, exponent = some e → e.Valid) : Valid ⟨none, whole, fraction, exponent⟩ := by
  refine ⟨?_, hw, hf, .inl hne, he⟩
  intro c hc
  cases hc

/-- A valid literal is read from its own text. -/
theorem ofText?_toText {l : Literal} (h : l.Valid) : ofText? l.toText = some l := by
  rw [toText_eq, ofText?, splitSign_append h.sign h.stopsAt_isSign]
  dsimp only
  rw [splitDigits_append h.whole (stopsAt_fractionText h.exponent)]
  dsimp only
  rw [splitFraction_append h.fraction h.exponent]
  dsimp only
  rw [exponentOf?_exponentText h.exponent]
  exact if_pos h.hasDigit

/-! ## What is read from a text -/

theorem toList_append_splitSign (t : Text) : (splitSign t).1.toList ++ (splitSign t).2 = t := by
  cases t with
  | nil => rfl
  | cons c t => cases hc : Text.isSign c <;> simp [splitSign, hc]

theorem isSign_of_splitSign {t : Text} {c : Char} (h : (splitSign t).1 = some c) :
    Text.isSign c = true := by
  cases t with
  | nil => cases h
  | cons a t =>
    cases ha : Text.isSign a with
    | true =>
      simp only [splitSign, ha, if_true, Option.some.injEq] at h
      exact h ▸ ha
    | false => simp [splitSign, ha] at h

theorem append_splitDigits (t : Text) : (splitDigits t).1 ++ (splitDigits t).2 = t :=
  List.takeWhile_append_dropWhile

theorem isDigit_of_mem_splitDigits (t : Text) : ∀ c ∈ (splitDigits t).1, c.isDigit = true :=
  List.all_eq_true.mp List.all_takeWhile

theorem fractionText_append_splitFraction (t : Text) :
    fractionText (splitFraction t).1 ++ (splitFraction t).2 = t := by
  unfold splitFraction
  split
  · rename_i u
    exact congrArg ('.' :: ·) (append_splitDigits u)
  · rfl

theorem isDigit_of_splitFraction {t f : Text} (h : (splitFraction t).1 = some f) :
    ∀ c ∈ f, c.isDigit = true := by
  unfold splitFraction at h
  split at h
  · cases h
    exact isDigit_of_mem_splitDigits _
  · cases h

theorem exponentText_of_exponentOf? {t : Text} {exponent : Option Exponent}
    (h : exponentOf? t = some exponent) :
    exponentText exponent = t ∧ ∀ e, exponent = some e → e.Valid := by
  cases t with
  | nil =>
    cases h
    refine ⟨rfl, ?_⟩
    intro e he
    cases he
  | cons c t =>
    unfold exponentOf? at h
    dsimp only at h
    split at h
    · rename_i hsplit
      obtain ⟨hmark, hne, hdigits⟩ := hsplit
      cases h
      constructor
      · exact congrArg (c :: ·) (toList_append_splitSign t)
      · intro e he
        cases he
        exact ⟨hmark, fun a ha => isSign_of_splitSign ha, hne, List.all_eq_true.mp hdigits⟩
    · cases h

/-- A literal that is read from a text is valid and has this text. -/
theorem valid_of_ofText? {t : Text} {l : Literal} (h : ofText? t = some l) :
    l.Valid ∧ l.toText = t := by
  unfold ofText? at h
  dsimp only at h
  split at h
  · rename_i exponent hexponent
    split at h
    · rename_i hdigit
      cases h
      obtain ⟨htext, hvalid⟩ := exponentText_of_exponentOf? hexponent
      constructor
      · refine ⟨fun c hc => isSign_of_splitSign hc, isDigit_of_mem_splitDigits _,
          fun f hf => isDigit_of_splitFraction hf, ?_, hvalid⟩
        rcases Bool.or_eq_true_iff.mp hdigit with hw | hf
        · left
          simpa using hw
        · right
          simpa [Option.any_eq_true] using hf
      · rw [toText_eq, htext, fractionText_append_splitFraction, append_splitDigits,
          toList_append_splitSign]
    · cases h
  · cases h

/-- The characters of a literal. -/
theorem Valid.mem_toText {l : Literal} (h : l.Valid) {c : Char} (hc : c ∈ l.toText) :
    c.isDigit = true ∨ c ∈ ['+', '-', '.', 'e', 'E'] := by
  have hsign : ∀ {a : Char}, Text.isSign a = true → a ∈ ['+', '-', '.', 'e', 'E'] := by
    intro a ha
    rcases Bool.or_eq_true_iff.mp ha with ha | ha <;> rw [eq_of_beq ha] <;> decide
  rw [toText_eq] at hc
  simp only [List.mem_append, Option.mem_toList] at hc
  rcases hc with hc | hc | hc | hc
  · exact Or.inr (hsign (h.sign c hc))
  · exact Or.inl (h.whole c hc)
  · cases hf : l.fraction with
    | none =>
      rw [hf] at hc
      cases hc
    | some f =>
      rw [hf] at hc
      rcases List.mem_cons.mp hc with rfl | hc
      · exact Or.inr (by decide)
      · exact Or.inl (h.fraction f hf c hc)
  · cases he : l.exponent with
    | none =>
      rw [he] at hc
      cases hc
    | some e =>
      rw [he] at hc
      obtain ⟨hmark, hexponent, _, hd⟩ := h.exponent e he
      simp only [exponentText, Exponent.toText, List.mem_cons, List.mem_append,
        Option.mem_toList] at hc
      rcases hc with rfl | hc | hc
      · right
        rcases hmark with hm | hm <;> rw [hm] <;> decide
      · exact Or.inr (hsign (hexponent c hc))
      · exact Or.inl (hd c hc)

/-- A literal starts with a digit, a sign or a point. -/
theorem Valid.exists_head {l : Literal} (h : l.Valid) :
    ∃ c, l.toText.head? = some c ∧ (c.isDigit = true ∨ c ∈ ['+', '-', '.']) := by
  rw [toText_eq]
  cases hs : l.sign with
  | some c =>
    refine ⟨c, rfl, Or.inr ?_⟩
    rcases Bool.or_eq_true_iff.mp (h.sign c hs) with hc | hc <;> rw [eq_of_beq hc] <;> decide
  | none =>
    cases hw : l.whole with
    | cons c ds =>
      refine ⟨c, rfl, Or.inl (h.whole c ?_)⟩
      rw [hw]
      exact List.mem_cons_self
    | nil =>
      obtain ⟨f, hf, _⟩ := h.digit.resolve_left (fun hne => hne hw)
      rw [hf]
      exact ⟨'.', rfl, Or.inr (by decide)⟩

/-- No character of a literal is a blank or a bracket. -/
theorem Valid.isWord {l : Literal} (h : l.Valid) : ∀ c ∈ l.toText, Text.isWord c = true := by
  intro c hc
  have hmarks : ∀ a ∈ ['+', '-', '.', 'e', 'E'], Text.isWord a = true :=
    List.all_eq_true.mp (by decide)
  rcases h.mem_toText hc with hc | hc
  · exact Text.isWord_of_isDigit hc
  · exact hmarks c hc

end Literal
end PrefixCalc
