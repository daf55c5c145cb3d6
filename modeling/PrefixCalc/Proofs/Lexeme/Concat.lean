import Mathlib.Data.List.Basic
import PrefixCalc.Proofs.Lexeme.Tiling

/-! # Lexemes of a text in two parts

Where no word goes over the border, the lexemes of a text are those of its first part and then
those of the rest. Every text falls into two such parts before and behind each of its lexemes,
so that a lexeme is known from the place where it starts, and every list of words has a text. -/

namespace PrefixCalc
set_option autoImplicit false

namespace Text

/-- No word goes from the first text over into the second. -/
def Parted (p s : Text) : Prop := (∀ c ∈ p.getLast?, isWord c = false) ∨ StopsAt isWord s

theorem isWord_of_isBlank {c : Char} (h : isBlank c = true) : isWord c = false := by
  simp [isWord, h]

theorem isWord_of_isBracket {c : Char} (h : isBracket c = true) : isWord c = false := by
  simp [isWord, h]

theorem Parted.of_append {w p s : Text} (h : Parted (w ++ p) s) : Parted p s := by
  rcases h with h | h
  · left
    intro c hc
    exact h c (List.mem_getLast?_append_of_mem_getLast? hc)
  · exact .inr h

theorem Parted.append_left {p s : Text} (w : Text) (h : Parted p s) (hp : p ≠ []) :
    Parted (w ++ p) s := by
  rcases h with h | h
  · left
    intro c hc
    exact h c (by rwa [List.getLast?_append_of_ne_nil _ hp] at hc)
  · exact .inr h

theorem Parted.of_isBlanks {p blanks : Text} (h : IsBlanks blanks) : Parted p blanks := by
  right
  intro c hc
  exact isWord_of_isBlank (h c (List.mem_of_mem_head? hc))

theorem IsLexeme.alone {w p : Text} (hw : IsLexeme w p) : IsLexeme w [] := by
  cases hw with
  | bracket hb => exact .bracket hb
  | word nonempty chars _ => exact .word nonempty chars (stopsAt_nil _)

/-- A lexeme stays one when the text after it goes on behind a border. -/
theorem IsLexeme.append {w p s : Text} (hw : IsLexeme w p) (h : Parted (w ++ p) s) :
    IsLexeme w (p ++ s) := by
  cases hw with
  | bracket hb => exact .bracket hb
  | word nonempty chars stops =>
    refine .word nonempty chars ?_
    cases p with
    | cons c p => exact stops
    | nil =>
      rw [List.append_nil] at h
      refine h.resolve_left fun hlast => ?_
      have hmem := List.getLast_mem nonempty
      have := hlast _ (List.getLast?_eq_some_getLast nonempty)
      rw [chars _ hmem] at this
      cases this

theorem IsLexeme.parted {w p s : Text} (hw : IsLexeme w (p ++ s)) (h : Parted p s) :
    IsLexeme w p ∧ Parted (w ++ p) s := by
  cases p with
  | cons c p =>
    refine ⟨?_, h.append_left w (List.cons_ne_nil _ _)⟩
    cases hw with
    | bracket hb => exact .bracket hb
    | word nonempty chars stops => exact .word nonempty chars stops
  | nil =>
    rw [List.append_nil]
    cases hw with
    | bracket hb =>
      refine ⟨.bracket hb, .inl ?_⟩
      intro c hc
      cases Option.mem_def.1 hc
      exact isWord_of_isBracket hb
    | word nonempty chars stops => exact ⟨.word nonempty chars (stopsAt_nil _), .inr stops⟩

end Text

namespace Remainder

theorem lexemes_blanks_append {blanks : Text} (s : Text) (pos : Nat) (hb : Text.IsBlanks blanks) :
    lexemes ⟨blanks ++ s, pos⟩ = lexemes ⟨s, pos + blanks.length⟩ := by
  have hskip : skipBlanks ⟨blanks ++ s, pos⟩ = skipBlanks ⟨s, pos + blanks.length⟩ := by
    simp only [skipBlanks, dropWhile, List.dropWhile_append_of_pos hb,
      List.takeWhile_append_of_pos hb, List.length_append, Nat.add_assoc]
  have hnext : next ⟨blanks ++ s, pos⟩ = next ⟨s, pos + blanks.length⟩ := congrArg cut hskip
  rw [lexemes, hnext, ← lexemes]

theorem lexemes_append {p s : Text} (pos : Nat) (h : Text.Parted p s) :
    lexemes ⟨p ++ s, pos⟩ = lexemes ⟨p, pos⟩ ++ lexemes ⟨s, pos + p.length⟩ := by
  -- on the length of the first part, lexeme by lexeme
  induction hn : p.length using Nat.strongRecOn generalizing p pos with
  | ind n ih =>
    have hc := cut_next ⟨p, pos⟩
    generalize next ⟨p, pos⟩ = a at hc
    obtain ⟨l, r⟩ := a
    cases hc with
    | finish blank =>
      rw [lexemes_blanks_append s pos blank, lexemes_of_isBlanks pos blank, List.nil_append, hn]
    | @lexeme blanks w rest _ blank lexeme =>
      have hw := lexeme.append h.of_append
      have hlt : rest.length < n := by
        have := List.length_pos_iff.2 lexeme.ne_nil
        simp only [List.length_append] at hn
        omega
      have htail := ih rest.length hlt (pos + blanks.length + w.length) h.of_append.of_append rfl
      rw [List.append_assoc, List.append_assoc, lexemes_of_isLexeme pos blank hw,
        lexemes_of_isLexeme pos blank lexeme, htail, ← hn]
      simp only [List.cons_append, List.length_append, Nat.add_assoc]

/-- A remainder falls into parts where the list of its lexemes does; the first part ends with
its last lexeme. -/
theorem exists_parts {r : Remainder} {ls ms : List Lexeme} (h : r.lexemes = ls ++ ms) :
    ∃ p s, r.text = p ++ s ∧ Text.Parted p s ∧ lexemes ⟨p, r.pos⟩ = ls ∧
      lexemes ⟨s, r.pos + p.length⟩ = ms ∧
      r.pos + p.length = (ls.map Lexeme.stop).getLastD r.pos := by
  induction ls generalizing r with
  | nil =>
    refine ⟨[], r.text, rfl, .inl ?_, lexemes_of_isBlanks _ Text.isBlanks_nil, h, rfl⟩
    intro c hc
    cases hc
  | cons l ls ih =>
    obtain ⟨blanks, rest, htext, hb, hw, hstart, hrest⟩ := exists_text_of_lexemes_cons h
    obtain ⟨p, s, hps, hparted, hls, hms, hend⟩ := ih hrest
    dsimp only at hps hls hms hend
    rw [hps] at htext hw
    obtain ⟨hwp, hparted⟩ := hw.parted hparted
    have hpos : r.pos + (blanks ++ (l.text ++ p)).length = l.stop + p.length := by
      rw [Lexeme.stop, hstart]
      simp only [List.length_append, Nat.add_assoc]
    have hne : l.text ++ p ≠ [] := by simp [hwp.ne_nil]
    refine ⟨blanks ++ (l.text ++ p), s, ?_, hparted.append_left _ hne, ?_, ?_, ?_⟩
    · rw [htext]
      simp only [List.append_assoc]
    · rw [lexemes_of_isLexeme r.pos hb hwp, ← hstart]
      exact congrArg (l :: ·) hls
    · rw [hpos]
      exact hms
    · rw [hpos, List.map_cons, List.getLastD_cons]
      exact hend

end Remainder

namespace Text

theorem words_append {p s : Text} (h : Parted p s) : words (p ++ s) = p.words ++ s.words := by
  rw [← words_eq_of_pos _ 0, Remainder.lexemes_append 0 h, List.map_append, words_eq_of_pos,
    words_eq_of_pos]

/-! ## Cutting a text at a lexeme -/

section Cut
variable {t : Text} {ls ms : List Lexeme} {l : Lexeme}

/-- A text cut behind its first lexemes, and before or at the next one, has just these. -/
theorem lexemes_take_of_append {n : Nat} (h : t.lexemes = ls ++ ms)
    (hls : ∀ k ∈ ls.getLast?, k.stop ≤ n) (hms : ∀ k ∈ ms.head?, n ≤ k.start) :
    lexemes (t.take n) = ls := by
  obtain ⟨p, s, ht, _, hp, hs, hend⟩ := Remainder.exists_parts (r := Remainder.ofText t) h
  have hlen : p.length ≤ n := by
    have hpos : (Remainder.ofText t).pos + p.length = p.length := Nat.zero_add _
    rw [← hpos, hend]
    rcases List.eq_nil_or_concat ls with rfl | ⟨ks, k, rfl⟩
    · exact Nat.zero_le n
    · simpa using hls k (by simp)
  -- behind the last of the lexemes the cut leaves blanks only
  have hblanks : IsBlanks (s.take (n - p.length)) := by
    cases ms with
    | nil =>
      intro c hc
      exact Remainder.isBlanks_of_lexemes_nil hs c (List.mem_of_mem_take hc)
    | cons k ms =>
      obtain ⟨blanks, rest, hsplit, hb, _, hstart, _⟩ := Remainder.exists_text_of_lexemes_cons hs
      have hn := hms k rfl
      dsimp only [Remainder.ofText] at hsplit hstart
      intro c hc
      apply hb c
      rw [hsplit, List.take_append_of_le_length (by omega)] at hc
      exact List.mem_of_mem_take hc
  have htake : t.take n = p ++ s.take (n - p.length) := by
    have ht' : t = p ++ s := ht
    rw [ht', List.take_append, List.take_of_length_le hlen]
  have happend := Remainder.lexemes_append 0 (Parted.of_isBlanks (p := p) hblanks)
  rw [Remainder.lexemes_of_isBlanks _ hblanks, List.append_nil] at happend
  rw [htake]
  exact happend.trans hp

theorem stop_le_start {a b : Lexeme} (h : t.lexemes = ls ++ a :: b :: ms) : a.stop ≤ b.start := by
  obtain ⟨_, blanks, _, _, _, _, hb⟩ := (Remainder.of_ofText t).exists_blanks h
  omega

theorem lexemes_take_stop (h : t.lexemes = ls ++ l :: ms) :
    lexemes (t.take l.stop) = ls ++ [l] := by
  have h' : t.lexemes = (ls ++ [l]) ++ ms := by
    rw [h, List.append_assoc]
    rfl
  apply lexemes_take_of_append h'
  · simp
  · intro k hk
    obtain ⟨ks, rfl⟩ := List.head?_eq_some_iff.1 hk
    exact stop_le_start h

theorem lexemes_take_start (h : t.lexemes = ls ++ l :: ms) :
    lexemes (t.take l.start) = ls := by
  apply lexemes_take_of_append h
  · intro k hk
    obtain ⟨ks, rfl⟩ := List.getLast?_eq_some_iff.1 hk
    rw [List.append_assoc] at h
    exact stop_le_start h
  · simp

theorem lexemes_inj_start {ls' ms' : List Lexeme} {l' : Lexeme} (h : t.lexemes = ls ++ l :: ms)
    (h' : t.lexemes = ls' ++ l' :: ms') (hs : l.start = l'.start) :
    ls = ls' ∧ l = l' ∧ ms = ms' := by
  have hls : ls = ls' := by
    rw [← lexemes_take_start h, hs, lexemes_take_start h']
  subst hls
  rw [h] at h'
  obtain ⟨hl, hms⟩ := List.cons.inj (List.append_cancel_left h')
  exact ⟨rfl, hl, hms⟩

end Cut

/-! ## Texts of given words -/

/-- The words with a blank before each of them. -/
def spaced (ws : List Text) : Text := ws.flatMap (' ' :: ·)

theorem stopsAt_spaced (ws : List Text) : StopsAt isWord (spaced ws) := by
  intro c hc
  cases ws with
  | nil => cases hc
  | cons w ws =>
    rw [spaced, List.flatMap_cons] at hc
    cases Option.mem_def.1 hc
    decide

theorem words_spaced {ws : List Text} (h : ∀ w ∈ ws, IsLexeme w []) : (spaced ws).words = ws := by
  induction ws with
  | nil => exact words_of_isBlanks isBlanks_nil
  | cons w ws ih =>
    have hw : IsLexeme w (spaced ws) := by
      have := (h w List.mem_cons_self).append (.inr (stopsAt_spaced ws))
      rwa [List.nil_append] at this
    have htail := ih fun v hv => h v (List.mem_cons_of_mem _ hv)
    have hwords : words ([' '] ++ (w ++ spaced ws)) = w :: (spaced ws).words :=
      words_of_isLexeme isBlanks_space hw
    rw [htail] at hwords
    exact hwords

end Text
end PrefixCalc
