import PrefixCalc.Proofs.Lexeme.Concat

/-! # Lexemes replaced in place

A text in which each lexeme is replaced keeps its blanks. Where brackets are replaced by
themselves and every other word by a word, no two lexemes of the new text run together and none
falls apart, so that its words are the replaced words of the old text. -/

namespace PrefixCalc
set_option autoImplicit false

namespace Text

/-- The text from a place on, in which the lexemes after the place are replaced. -/
def splice (f : Text → Text) (t : Text) : Nat → List Lexeme → Text
  | pos, [] => t.drop pos
  | pos, l :: ls => (t.take l.start).drop pos ++ (f l.text ++ splice f t l.stop ls)

/-- The text in which each lexeme is replaced and all else stands as it was. -/
def mapLexemes (f : Text → Text) (t : Text) : Text := t.splice f 0 t.lexemes

structure KeepsKind (f : Text → Text) : Prop where
  bracket : ∀ c, isBracket c = true → f [c] = [c]
  nonempty : ∀ w, w ≠ [] → (∀ c ∈ w, isWord c = true) → f w ≠ []
  chars : ∀ w, w ≠ [] → (∀ c ∈ w, isWord c = true) → ∀ c ∈ f w, isWord c = true

variable {f : Text → Text}

theorem IsLexeme.replace {w p q : Text} (hf : KeepsKind f) (hw : IsLexeme w p)
    (hstops : StopsAt isWord p → StopsAt isWord q) : IsLexeme (f w) q := by
  cases hw with
  | bracket hb =>
    rw [hf.bracket _ hb]
    exact .bracket hb
  | word nonempty chars stops =>
    exact .word (hf.nonempty w nonempty chars) (hf.chars w nonempty chars) (hstops stops)

/-- Only a bracket or a blank stops a word, and both stay where they are. -/
theorem IsLexeme.stopsAt_replace {blanks w p : Text} (q : Text) (hf : KeepsKind f)
    (hb : IsBlanks blanks) (hw : IsLexeme w p) (h : StopsAt isWord (blanks ++ (w ++ p))) :
    StopsAt isWord (blanks ++ (f w ++ q)) := by
  cases blanks with
  | cons b bs =>
    intro c hc
    cases Option.mem_def.mp hc
    exact isWord_of_isBlank (hb b List.mem_cons_self)
  | nil =>
    cases hw with
    | bracket hbracket =>
      rw [hf.bracket _ hbracket]
      intro c hc
      cases Option.mem_def.mp hc
      exact isWord_of_isBracket hbracket
    | word nonempty chars _ =>
      obtain ⟨a, u, rfl⟩ := List.exists_cons_of_ne_nil nonempty
      have hword := chars a List.mem_cons_self
      rw [h a rfl] at hword
      cases hword

/-! ## Lexeme by lexeme -/

theorem splice_of_isBlanks {t : Text} {r : Remainder} (h : r.Of t) (hb : IsBlanks r.text) :
    t.splice f r.pos r.lexemes = r.text := by
  obtain ⟨p, ht, hp⟩ := h
  have hnil : r.lexemes = [] := Remainder.lexemes_of_isBlanks r.pos hb
  rw [hnil, splice, ht, ← hp]
  exact List.drop_left

theorem splice_of_isLexeme {t blanks w rest : Text} {pos : Nat}
    (h : Remainder.Of t ⟨blanks ++ (w ++ rest), pos⟩) (hb : IsBlanks blanks)
    (hw : IsLexeme w rest) :
    ∃ r : Remainder, r.Of t ∧ r.text = rest ∧
      t.splice f pos (Remainder.lexemes ⟨blanks ++ (w ++ rest), pos⟩) =
        blanks ++ (f w ++ t.splice f r.pos r.lexemes) := by
  obtain ⟨p, ht, hp⟩ := h
  dsimp only at ht hp
  refine ⟨⟨rest, pos + blanks.length + w.length⟩, ⟨p ++ (blanks ++ w), ?_, ?_⟩, rfl, ?_⟩
  · rw [ht]
    simp only [List.append_assoc]
  · simp only [List.length_append, hp, Nat.add_assoc]
  · have hgap : (t.take (pos + blanks.length)).drop pos = blanks := by
      rw [← hp, ← List.length_append, ht, ← List.append_assoc, List.take_left, List.drop_left]
    rw [Remainder.lexemes_of_isLexeme pos hb hw, splice, hgap]
    rfl

/-- What is written for a part of a text does not depend on the place of the part. -/
theorem splice_eq {t t' : Text} {r r' : Remainder} (h : r.Of t) (h' : r'.Of t')
    (heq : r.text = r'.text) : t.splice f r.pos r.lexemes = t'.splice f r'.pos r'.lexemes := by
  -- on the length of the part: what follows its first lexeme is shorter
  induction hn : r.text.length using Nat.strongRecOn generalizing r r' with
  | ind n ih =>
    obtain ⟨text, pos⟩ := r
    obtain ⟨text', pos'⟩ := r'
    dsimp only at heq hn
    subst heq
    rcases isBlanks_or_exists_isLexeme text with blank | ⟨blanks, w, rest, rfl, blank, lexeme⟩
    · rw [splice_of_isBlanks h blank, splice_of_isBlanks h' blank]
    · obtain ⟨r, hr, hrest, hsplice⟩ := splice_of_isLexeme h blank lexeme
      obtain ⟨r', hr', hrest', hsplice'⟩ := splice_of_isLexeme h' blank lexeme
      have hlt : r.text.length < n := by
        have := List.length_pos_iff.mpr lexeme.ne_nil
        rw [hrest, ← hn]
        simp only [List.length_append]
        omega
      rw [hsplice, hsplice', ih _ hlt hr hr' (hrest.trans hrest'.symm) rfl]

theorem mapLexemes_of_isBlanks {blanks : Text} (hb : IsBlanks blanks) :
    blanks.mapLexemes f = blanks :=
  splice_of_isBlanks (Remainder.of_ofText blanks) hb

theorem mapLexemes_of_isLexeme {blanks w rest : Text} (hb : IsBlanks blanks)
    (hw : IsLexeme w rest) :
    mapLexemes f (blanks ++ (w ++ rest)) = blanks ++ (f w ++ rest.mapLexemes f) := by
  have hof := Remainder.of_ofText (blanks ++ (w ++ rest))
  obtain ⟨r, hr, hrest, hsplice⟩ := splice_of_isLexeme (f := f) hof hb hw
  rw [splice_eq hr (Remainder.of_ofText rest) hrest] at hsplice
  exact hsplice

theorem mapLexemes_word_append {w rest : Text} (hne : w ≠ []) (hw : ∀ c ∈ w, isWord c = true)
    (hr : StopsAt isWord rest) : mapLexemes f (w ++ rest) = f w ++ rest.mapLexemes f :=
  mapLexemes_of_isLexeme isBlanks_nil (.word hne hw hr)

theorem mapLexemes_cons_bracket {c : Char} (rest : Text) (hc : isBracket c = true) :
    mapLexemes f (c :: rest) = f [c] ++ rest.mapLexemes f := by
  have hw : IsLexeme [c] rest := .bracket hc
  exact mapLexemes_of_isLexeme isBlanks_nil hw

theorem mapLexemes_blanks_append {blanks : Text} (t : Text) (hb : IsBlanks blanks) :
    mapLexemes f (blanks ++ t) = blanks ++ t.mapLexemes f := by
  rcases isBlanks_or_exists_isLexeme t with blank | ⟨blanks', w, rest, rfl, blank, lexeme⟩
  · rw [mapLexemes_of_isBlanks (isBlanks_append hb blank), mapLexemes_of_isBlanks blank]
  · have hmap := mapLexemes_of_isLexeme (f := f) (isBlanks_append hb blank) lexeme
    rw [List.append_assoc, List.append_assoc] at hmap
    rw [hmap, mapLexemes_of_isLexeme blank lexeme]

/-! ## Words -/

theorem words_mapLexemes_stopsAt (hf : KeepsKind f) (t : Text) :
    (t.mapLexemes f).words = t.words.map f ∧
      (StopsAt isWord t → StopsAt isWord (t.mapLexemes f)) := by
  -- on the lexemes: what is replaced behind a lexeme does not make it longer
  induction hn : t.length using Nat.strongRecOn generalizing t with
  | ind n ih =>
    rcases isBlanks_or_exists_isLexeme t with blank | ⟨blanks, w, rest, rfl, blank, lexeme⟩
    · rw [mapLexemes_of_isBlanks blank, words_of_isBlanks blank]
      exact ⟨rfl, id⟩
    · have hlt : rest.length < n := by
        have := List.length_pos_iff.mpr lexeme.ne_nil
        rw [← hn]
        simp only [List.length_append]
        omega
      obtain ⟨hwords, hstops⟩ := ih rest.length hlt rest rfl
      rw [mapLexemes_of_isLexeme blank lexeme]
      constructor
      · rw [words_of_isLexeme blank (lexeme.replace hf hstops), hwords,
          words_of_isLexeme blank lexeme, List.map_cons]
      · exact lexeme.stopsAt_replace _ hf blank

/-- The words of the new text are the replaced words. -/
theorem words_mapLexemes (t : Text) (hf : KeepsKind f) : (t.mapLexemes f).words = t.words.map f :=
  (words_mapLexemes_stopsAt hf t).1

end Text
end PrefixCalc
