import PrefixCalc.Lexeme.Basic

/-! # Lexemes tile their text

Reading a lexeme cuts a remainder into blanks, the lexeme and what follows it; `Remainder.Cut`
is this relation without the function. A remainder of a text stands at a place of the text,
so each lexeme that is read from it is a piece of the text at its start, and only blanks lie
between two neighbours. -/

namespace PrefixCalc
set_option autoImplicit false

namespace Text

def IsBlanks (t : Text) : Prop := ∀ c ∈ t, isBlank c = true

/-- The text is empty, or its first character has not the property. -/
def StopsAt (p : Char → Bool) (t : Text) : Prop := ∀ c ∈ t.head?, p c = false

/-- A text that is a lexeme when the second text follows it. -/
inductive IsLexeme : Text → Text → Prop where
  | bracket {c : Char} {rest : Text} (h : isBracket c = true) : IsLexeme [c] rest
  | word {w rest : Text} (nonempty : w ≠ []) (chars : ∀ c ∈ w, isWord c = true)
      (stops : StopsAt isWord rest) : IsLexeme w rest

theorem isBlanks_nil : IsBlanks [] := by
  intro c hc
  cases hc

theorem isBlanks_space : IsBlanks [' '] := by
  intro c hc
  rw [List.mem_singleton.1 hc]
  decide

theorem isBlanks_takeWhile (t : Text) : IsBlanks (t.takeWhile isBlank) :=
  List.all_eq_true.1 List.all_takeWhile

theorem stopsAt_nil (p : Char → Bool) : StopsAt p [] := by
  intro c hc
  cases hc

theorem stopsAt_closing (rest : Text) : StopsAt isWord (')' :: rest) := by
  intro c hc
  cases Option.mem_def.1 hc
  decide

theorem stopsAt_dropWhile (p : Char → Bool) (t : Text) : StopsAt p (t.dropWhile p) := by
  intro c hc
  have h := List.head?_dropWhile_not p t
  rw [Option.mem_def.1 hc] at h
  exact h

theorem takeWhile_of_stopsAt {p : Char → Bool} {t : Text} (h : StopsAt p t) :
    t.takeWhile p = [] := by
  cases t with
  | nil => rfl
  | cons c t => exact List.takeWhile_cons_of_neg (by simp [h c rfl])

theorem dropWhile_of_stopsAt {p : Char → Bool} {t : Text} (h : StopsAt p t) :
    t.dropWhile p = t := by
  cases t with
  | nil => rfl
  | cons c t => exact List.dropWhile_cons_of_neg (by simp [h c rfl])

theorem takeWhile_append_stop {p : Char → Bool} {w rest : Text} (hw : ∀ c ∈ w, p c = true)
    (hr : StopsAt p rest) : (w ++ rest).takeWhile p = w := by
  rw [List.takeWhile_append_of_pos hw, takeWhile_of_stopsAt hr, List.append_nil]

theorem dropWhile_append_stop {p : Char → Bool} {w rest : Text} (hw : ∀ c ∈ w, p c = true)
    (hr : StopsAt p rest) : (w ++ rest).dropWhile p = rest := by
  rw [List.dropWhile_append_of_pos hw, dropWhile_of_stopsAt hr]

theorem IsLexeme.ne_nil {w rest : Text} (h : IsLexeme w rest) : w ≠ [] := by
  cases h with
  | bracket => exact List.cons_ne_nil _ _
  | word nonempty => exact nonempty

theorem IsLexeme.not_blank {w rest : Text} (h : IsLexeme w rest) :
    ∀ c ∈ w, isBlank c = false := by
  intro c hc
  cases h with
  | bracket hb =>
    rw [List.mem_singleton.1 hc]
    exact isBlank_of_isBracket hb
  | word _ chars => exact (isWord_iff.1 (chars c hc)).1

theorem IsLexeme.stopsAt_blank {w rest : Text} (h : IsLexeme w rest) (t : Text) :
    StopsAt isBlank (w ++ t) := by
  obtain ⟨a, u, hu⟩ := List.exists_cons_of_ne_nil h.ne_nil
  rintro c hc
  rw [hu] at hc
  cases Option.mem_def.1 hc
  exact h.not_blank a (by rw [hu]; exact List.mem_cons_self)

end Text

namespace Remainder

/-- A remainder, the next lexeme of it, and what follows the lexeme. -/
inductive Cut : Remainder → Lexeme → Remainder → Prop where
  | lexeme {blanks w rest : Text} {pos : Nat} (blank : Text.IsBlanks blanks)
      (lexeme : Text.IsLexeme w rest) :
      Cut ⟨blanks ++ (w ++ rest), pos⟩ ⟨w, pos + blanks.length⟩
        ⟨rest, pos + blanks.length + w.length⟩
  | finish {blanks : Text} {pos : Nat} (blank : Text.IsBlanks blanks) :
      Cut ⟨blanks, pos⟩ ⟨[], pos + blanks.length⟩ ⟨[], pos + blanks.length⟩

theorem skipBlanks_append {blanks t : Text} (pos : Nat) (hb : Text.IsBlanks blanks)
    (ht : Text.StopsAt Text.isBlank t) :
    skipBlanks ⟨blanks ++ t, pos⟩ = ⟨t, pos + blanks.length⟩ := by
  simp only [skipBlanks, dropWhile, Text.takeWhile_append_stop hb ht,
    Text.dropWhile_append_stop hb ht]

theorem cut_of_isLexeme {w rest : Text} (pos : Nat) (h : Text.IsLexeme w rest) :
    cut ⟨w ++ rest, pos⟩ = (⟨w, pos⟩, ⟨rest, pos + w.length⟩) := by
  cases h with
  | bracket hb => simp [cut, hb]
  | word nonempty chars stops =>
    obtain ⟨c, w, rfl⟩ := List.exists_cons_of_ne_nil nonempty
    have hc := (Text.isWord_iff.1 (chars c List.mem_cons_self)).2
    have ht := Text.takeWhile_append_stop chars stops
    have hd := Text.dropWhile_append_stop chars stops
    simp only [List.cons_append] at ht hd
    simp [cut, dropWhile, hc, ht, hd]

/-- The relation determines what is read. -/
theorem Cut.next_eq {r r' : Remainder} {l : Lexeme} (h : Cut r l r') : r.next = (l, r') := by
  cases h with
  | lexeme blank lexeme =>
    rw [next, skipBlanks_append _ blank (lexeme.stopsAt_blank _), cut_of_isLexeme _ lexeme]
  | @finish blanks pos blank =>
    have hs : skipBlanks ⟨blanks, pos⟩ = ⟨[], pos + blanks.length⟩ := by
      simpa using skipBlanks_append pos blank (Text.stopsAt_nil _)
    rw [next, hs]
    rfl

theorem exists_isLexeme {t : Text} (ht : t ≠ []) (hb : Text.StopsAt Text.isBlank t) :
    ∃ w rest, t = w ++ rest ∧ Text.IsLexeme w rest := by
  obtain ⟨c, t, rfl⟩ := List.exists_cons_of_ne_nil ht
  cases hc : Text.isBracket c with
  | true => exact ⟨[c], t, rfl, .bracket hc⟩
  | false =>
    have hw : Text.isWord c = true := Text.isWord_iff.2 ⟨hb c rfl, hc⟩
    refine ⟨(c :: t).takeWhile Text.isWord, (c :: t).dropWhile Text.isWord,
      List.takeWhile_append_dropWhile.symm, .word ?_ ?_ (Text.stopsAt_dropWhile _ _)⟩
    · rw [List.takeWhile_cons_of_pos hw]
      exact List.cons_ne_nil _ _
    · exact List.all_eq_true.1 List.all_takeWhile

/-- Every remainder is cut by reading a lexeme. -/
theorem cut_next (r : Remainder) : Cut r r.next.1 r.next.2 := by
  obtain ⟨t, pos⟩ := r
  have ht : t = t.takeWhile Text.isBlank ++ t.dropWhile Text.isBlank :=
    List.takeWhile_append_dropWhile.symm
  have hb := Text.isBlanks_takeWhile t
  have hd := Text.stopsAt_dropWhile Text.isBlank t
  generalize t.takeWhile Text.isBlank = blanks at ht hb
  generalize t.dropWhile Text.isBlank = u at ht hd
  subst ht
  by_cases hu : u = []
  · subst hu
    rw [List.append_nil]
    have h : Cut ⟨blanks, pos⟩ _ _ := .finish hb
    rwa [h.next_eq]
  · obtain ⟨w, rest, rfl, hw⟩ := exists_isLexeme hu hd
    have h : Cut ⟨blanks ++ (w ++ rest), pos⟩ _ _ := .lexeme hb hw
    rwa [h.next_eq]

/-! ## The lexemes of a remainder -/

theorem lexemes_of_next_nil {r : Remainder} (h : r.next.1.text = []) : r.lexemes = [] := by
  rw [lexemes, if_pos h]

theorem lexemes_of_next_ne_nil {r : Remainder} (h : r.next.1.text ≠ []) :
    r.lexemes = r.next.1 :: r.next.2.lexemes := by
  rw [lexemes, if_neg h]

theorem length_lexemes_le (r : Remainder) : r.lexemes.length ≤ r.text.length := by
  by_cases h : r.next.1.text = []
  · rw [lexemes_of_next_nil h]
    exact Nat.zero_le _
  · have hpos := List.length_pos_iff.2 h
    have hle := r.length_next_le
    have htail := length_lexemes_le r.next.2
    rw [lexemes_of_next_ne_nil h, List.length_cons]
    omega
termination_by r.text.length

theorem lexemes_of_isBlanks {blanks : Text} (pos : Nat) (h : Text.IsBlanks blanks) :
    lexemes ⟨blanks, pos⟩ = [] := by
  apply lexemes_of_next_nil
  rw [(Cut.finish h).next_eq]

theorem lexemes_of_isLexeme {blanks w rest : Text} (pos : Nat) (hb : Text.IsBlanks blanks)
    (hw : Text.IsLexeme w rest) :
    lexemes ⟨blanks ++ (w ++ rest), pos⟩ =
      ⟨w, pos + blanks.length⟩ :: lexemes ⟨rest, pos + blanks.length + w.length⟩ := by
  have hn : next ⟨blanks ++ (w ++ rest), pos⟩ = _ := (Cut.lexeme hb hw).next_eq
  rw [lexemes_of_next_ne_nil (by rw [hn]; exact hw.ne_nil), hn]

theorem lexemes_cons_bracket {c : Char} (rest : Text) (pos : Nat) (hc : Text.isBracket c = true) :
    lexemes ⟨c :: rest, pos⟩ = ⟨[c], pos⟩ :: lexemes ⟨rest, pos + 1⟩ := by
  have hw : Text.IsLexeme [c] rest := .bracket hc
  exact lexemes_of_isLexeme pos Text.isBlanks_nil hw

theorem lexemes_word_append {w rest : Text} (pos : Nat) (hne : w ≠ [])
    (hw : ∀ c ∈ w, Text.isWord c = true) (hr : Text.StopsAt Text.isWord rest) :
    lexemes ⟨w ++ rest, pos⟩ = ⟨w, pos⟩ :: lexemes ⟨rest, pos + w.length⟩ :=
  lexemes_of_isLexeme pos Text.isBlanks_nil (.word hne hw hr)

theorem isBlanks_of_lexemes_nil {r : Remainder} (h : r.lexemes = []) : Text.IsBlanks r.text := by
  have hc := r.cut_next
  generalize hl : r.next.1 = l at hc
  generalize r.next.2 = r' at hc
  cases hc with
  | finish blank => exact blank
  | lexeme blank lexeme =>
    rw [lexemes_of_isLexeme _ blank lexeme] at h
    cases h

theorem text_ne_nil_of_mem_lexemes {r : Remainder} {l : Lexeme} (h : l ∈ r.lexemes) :
    l.text ≠ [] := by
  by_cases hn : r.next.1.text = []
  · rw [lexemes_of_next_nil hn] at h
    cases h
  · rw [lexemes_of_next_ne_nil hn] at h
    have := r.length_next_le
    have := List.length_pos_iff.2 hn
    rcases List.mem_cons.1 h with rfl | h
    · exact hn
    · exact text_ne_nil_of_mem_lexemes h
termination_by r.text.length
decreasing_by omega

/-! ## Places -/

/-- The remainder of a text from some place on. -/
def Of (t : Text) (r : Remainder) : Prop := ∃ p, t = p ++ r.text ∧ p.length = r.pos

theorem of_ofText (t : Text) : (ofText t).Of t := ⟨[], rfl, rfl⟩

theorem Of.pos_add_length {t : Text} {r : Remainder} (h : r.Of t) :
    r.pos + r.text.length = t.length := by
  obtain ⟨p, rfl, hp⟩ := h
  rw [List.length_append, hp]

theorem Of.next {t : Text} {r : Remainder} (h : r.Of t) : r.next.2.Of t := by
  obtain ⟨p, rfl, hp⟩ := h
  have hc := r.cut_next
  generalize r.next.1 = l at hc
  generalize r.next.2 = r' at hc
  cases hc with
  | @lexeme blanks w rest pos _ _ =>
    refine ⟨p ++ (blanks ++ w), by simp only [List.append_assoc], ?_⟩
    simp only [List.length_append, hp, Nat.add_assoc]
  | @finish blanks pos _ =>
    exact ⟨p ++ blanks, by simp, by simp only [List.length_append, hp]⟩

theorem Of.skipBlanks {t : Text} {r : Remainder} (h : r.Of t) : r.skipBlanks.Of t := by
  obtain ⟨p, rfl, hp⟩ := h
  refine ⟨p ++ r.text.takeWhile Text.isBlank, ?_, ?_⟩
  · rw [List.append_assoc]
    exact congrArg (p ++ ·) List.takeWhile_append_dropWhile.symm
  · rw [List.length_append, hp]
    rfl

theorem Of.exists_lexemes {t : Text} {ls ms : List Lexeme} {r : Remainder} (h : r.Of t)
    (hl : r.lexemes = ls ++ ms) : ∃ r' : Remainder, r'.Of t ∧ r'.lexemes = ms := by
  induction ls generalizing r with
  | nil => exact ⟨r, h, hl⟩
  | cons l ls ih =>
    have hn : r.next.1.text ≠ [] := by
      intro hn
      rw [lexemes_of_next_nil hn] at hl
      cases hl
    rw [lexemes_of_next_ne_nil hn] at hl
    exact ih h.next (List.cons.inj hl).2

theorem exists_text_of_lexemes_cons {r : Remainder} {l : Lexeme} {ls : List Lexeme}
    (h : r.lexemes = l :: ls) :
    ∃ blanks rest, r.text = blanks ++ (l.text ++ rest) ∧ Text.IsBlanks blanks ∧
      Text.IsLexeme l.text rest ∧ l.start = r.pos + blanks.length ∧
      lexemes ⟨rest, l.stop⟩ = ls := by
  have hc := r.cut_next
  generalize r.next.1 = k at hc
  generalize r.next.2 = r' at hc
  cases hc with
  | finish blank =>
    rw [lexemes_of_isBlanks _ blank] at h
    cases h
  | @lexeme blanks w rest pos blank lexeme =>
    rw [lexemes_of_isLexeme _ blank lexeme] at h
    obtain ⟨rfl, hls⟩ := List.cons.inj h
    exact ⟨blanks, rest, rfl, blank, lexeme, rfl, hls⟩

/-- A lexeme is the piece of the text at its start. -/
theorem Of.exists_piece {t : Text} {r : Remainder} {l : Lexeme} (h : r.Of t)
    (hl : l ∈ r.lexemes) :
    ∃ p q, t = p ++ (l.text ++ q) ∧ p.length = l.start ∧ Text.IsLexeme l.text q := by
  obtain ⟨ls, ms, hls⟩ := List.append_of_mem hl
  obtain ⟨r', ⟨p, ht, hp⟩, hr⟩ := h.exists_lexemes hls
  obtain ⟨blanks, rest, htext, _, hw, hstart, _⟩ := exists_text_of_lexemes_cons hr
  refine ⟨p ++ blanks, rest, ?_, ?_, hw⟩
  · rw [ht, htext, List.append_assoc]
  · rw [List.length_append, hp, hstart]

/-- Only blanks lie between two neighbours. -/
theorem Of.exists_blanks {t : Text} {r : Remainder} {a b : Lexeme} {ls ms : List Lexeme}
    (h : r.Of t) (hl : r.lexemes = ls ++ a :: b :: ms) :
    ∃ p blanks q, t = p ++ (a.text ++ (blanks ++ (b.text ++ q))) ∧ Text.IsBlanks blanks ∧
      p.length = a.start ∧ b.start = a.stop + blanks.length := by
  obtain ⟨r', ⟨p, ht, hp⟩, hr⟩ := h.exists_lexemes hl
  obtain ⟨before, rest, hra, _, _, hsa, hrest⟩ := exists_text_of_lexemes_cons hr
  obtain ⟨blanks, q, hrb, hb, _, hsb, _⟩ := exists_text_of_lexemes_cons hrest
  dsimp only at hrb hsb
  refine ⟨p ++ before, blanks, q, ?_, hb, ?_, hsb⟩
  · rw [ht, hra, hrb, List.append_assoc]
  · rw [List.length_append, hp, hsa]

end Remainder

namespace Text

/-- The lexemes of a text without their places. -/
def words (t : Text) : List Text := t.lexemes.map (·.text)

theorem lexemes_nil : lexemes [] = [] := Remainder.lexemes_of_isBlanks 0 isBlanks_nil

theorem length_words_le (t : Text) : t.words.length ≤ t.length := by
  rw [words, List.length_map]
  exact (Remainder.ofText t).length_lexemes_le

theorem isBlanks_or_exists_isLexeme (t : Text) :
    IsBlanks t ∨
      ∃ blanks w rest, t = blanks ++ (w ++ rest) ∧ IsBlanks blanks ∧ IsLexeme w rest := by
  have hc := Remainder.cut_next ⟨t, 0⟩
  generalize Remainder.next ⟨t, 0⟩ = a at hc
  obtain ⟨l, r⟩ := a
  cases hc with
  | finish blank => exact .inl blank
  | lexeme blank lexeme => exact .inr ⟨_, _, _, rfl, blank, lexeme⟩

/-- The words do not depend on the place where the text stands. -/
theorem words_eq_of_pos (t : Text) (pos : Nat) :
    (Remainder.lexemes ⟨t, pos⟩).map (·.text) = t.words := by
  suffices h : ∀ p q : Nat, (Remainder.lexemes ⟨t, p⟩).map (·.text) =
      (Remainder.lexemes ⟨t, q⟩).map (·.text) from h pos 0
  -- on the length: a lexeme is not empty, so that what follows it is shorter
  induction hn : t.length using Nat.strongRecOn generalizing t with
  | ind n ih =>
    intro p q
    rcases isBlanks_or_exists_isLexeme t with blank | ⟨blanks, w, rest, rfl, blank, lexeme⟩
    · rw [Remainder.lexemes_of_isBlanks p blank, Remainder.lexemes_of_isBlanks q blank]
    · rw [Remainder.lexemes_of_isLexeme p blank lexeme,
        Remainder.lexemes_of_isLexeme q blank lexeme]
      have hpos := List.length_pos_iff.2 lexeme.ne_nil
      simp only [List.length_append] at hn
      exact congrArg (w :: ·) (ih rest.length (by omega) rest rfl _ _)

theorem words_of_isLexeme {blanks w rest : Text} (hb : IsBlanks blanks) (hw : IsLexeme w rest) :
    words (blanks ++ (w ++ rest)) = w :: rest.words := by
  rw [← words_eq_of_pos _ 0, Remainder.lexemes_of_isLexeme 0 hb hw, List.map_cons, words_eq_of_pos]

theorem words_of_isBlanks {blanks : Text} (hb : IsBlanks blanks) : blanks.words = [] := by
  rw [← words_eq_of_pos _ 0, Remainder.lexemes_of_isBlanks 0 hb]
  rfl

theorem isBlanks_append {s t : Text} (hs : IsBlanks s) (ht : IsBlanks t) : IsBlanks (s ++ t) := by
  intro c hc
  rcases List.mem_append.1 hc with hc | hc
  · exact hs c hc
  · exact ht c hc

theorem words_blanks_append {blanks : Text} (t : Text) (hb : IsBlanks blanks) :
    words (blanks ++ t) = t.words := by
  rcases isBlanks_or_exists_isLexeme t with blank | ⟨_, w, rest, rfl, blank, lexeme⟩
  · rw [words_of_isBlanks (isBlanks_append hb blank), words_of_isBlanks blank]
  · rw [← List.append_assoc, words_of_isLexeme (isBlanks_append hb blank) lexeme,
      words_of_isLexeme blank lexeme]

/-- The empty lexeme that is read when no other is left. -/
def endLexeme (t : Text) : Lexeme := ⟨[], t.length⟩

end Text
end PrefixCalc
