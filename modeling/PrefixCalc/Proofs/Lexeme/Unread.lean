import PrefixCalc.Lexeme.Cursor
import PrefixCalc.Proofs.Lexeme.Tiling

/-! # What a cursor has still to read

A cursor has a list of lexemes before it: the one in its slot, then those of its remainder.
Reading takes the head of the list, or the empty lexeme at the end of the text when the list
is empty; pushing back the lexeme that was just read restores the list. -/

namespace PrefixCalc.Cursor
set_option autoImplicit false

/-- The lexemes before the cursor. An empty lexeme in the slot does not count. -/
def lexemes (c : Cursor) : List Lexeme :=
  match c.pushed with
  | some l => if l.text = [] then c.remainder.lexemes else l :: c.remainder.lexemes
  | none => c.remainder.lexemes

/-- The cursor walks over the text; an empty lexeme in its slot is the one at the end. -/
structure Over (t : Text) (c : Cursor) : Prop where
  remainder : c.remainder.Of t
  pushed : ∀ l, c.pushed = some l → l.text = [] → l = t.endLexeme ∧ c.remainder.lexemes = []

theorem over_ofText (t : Text) : (ofText t).Over t :=
  ⟨Remainder.of_ofText t, fun _ h => nomatch h⟩

@[simp] theorem lexemes_ofText (t : Text) : (ofText t).lexemes = t.lexemes := rfl

theorem next_eq_endLexeme {t : Text} {r : Remainder} (h : r.Of t) (hr : r.next.1.text = []) :
    r.next.1 = t.endLexeme ∧ r.next.2.lexemes = [] := by
  have hc := r.cut_next
  generalize r.next.1 = l at hc hr
  generalize r.next.2 = r' at hc
  have hlen := h.pos_add_length
  cases hc with
  | lexeme _ lexeme => exact absurd hr lexeme.ne_nil
  | finish _ =>
    rw [Text.endLexeme, ← hlen]
    exact ⟨rfl, Remainder.lexemes_of_isBlanks _ Text.isBlanks_nil⟩

/-- The lexeme that was just read, in the slot again. -/
def putBack (c : Cursor) : Cursor := ⟨c.next.2.remainder, some c.next.1⟩

theorem pushBack?_next (c : Cursor) : c.next.2.pushBack? c.next.1 = some c.putBack := by
  simp [pushBack?, putBack]

@[simp] theorem next_putBack (c : Cursor) : c.putBack.next = c.next := by
  have h := c.pushed_next
  rw [Prod.ext_iff]
  refine ⟨rfl, ?_⟩
  change (⟨c.next.2.remainder, none⟩ : Cursor) = c.next.2
  rw [← h]

section Over
variable {t : Text} {c : Cursor}

theorem Over.next_fst (h : c.Over t) : c.next.1 = c.lexemes.headD t.endLexeme := by
  obtain ⟨r, pushed⟩ := c
  cases pushed with
  | some l =>
    by_cases hl : l.text = []
    · obtain ⟨he, hr⟩ := h.pushed l rfl hl
      simpa [next, lexemes, hl, hr] using he
    · simp [next, lexemes, hl]
  | none =>
    by_cases hr : r.next.1.text = []
    · simpa [next, lexemes, Remainder.lexemes_of_next_nil hr]
        using (next_eq_endLexeme h.remainder hr).1
    · simp [next, lexemes, Remainder.lexemes_of_next_ne_nil hr]

theorem Over.lexemes_next (h : c.Over t) : c.next.2.lexemes = c.lexemes.tail := by
  obtain ⟨r, pushed⟩ := c
  cases pushed with
  | some l =>
    by_cases hl : l.text = []
    · obtain ⟨_, hr⟩ := h.pushed l rfl hl
      simp [next, lexemes, hl, hr]
    · simp [next, lexemes, hl]
  | none =>
    by_cases hr : r.next.1.text = []
    · simpa [next, lexemes, Remainder.lexemes_of_next_nil hr]
        using (next_eq_endLexeme h.remainder hr).2
    · simp [next, lexemes, Remainder.lexemes_of_next_ne_nil hr]

theorem Over.next (h : c.Over t) : c.next.2.Over t := by
  refine ⟨?_, fun l hl => by simp at hl⟩
  obtain ⟨r, pushed⟩ := c
  cases pushed with
  | some l => exact h.remainder
  | none => exact h.remainder.next

theorem text_ne_nil_of_mem_lexemes {l : Lexeme} (hl : l ∈ c.lexemes) : l.text ≠ [] := by
  unfold lexemes at hl
  split at hl
  · rename_i k _
    by_cases hk : k.text = []
    · rw [if_pos hk] at hl
      exact Remainder.text_ne_nil_of_mem_lexemes hl
    · rw [if_neg hk] at hl
      rcases List.mem_cons.1 hl with rfl | hl
      · exact hk
      · exact Remainder.text_ne_nil_of_mem_lexemes hl
  · exact Remainder.text_ne_nil_of_mem_lexemes hl

/-- What is read is empty just when nothing is left. -/
theorem Over.next_text_eq_nil_iff (h : c.Over t) : c.next.1.text = [] ↔ c.lexemes = [] := by
  rw [h.next_fst]
  cases hl : c.lexemes with
  | nil => simp [Text.endLexeme]
  | cons l ls =>
    have := text_ne_nil_of_mem_lexemes (c := c) (l := l) (by rw [hl]; exact List.mem_cons_self)
    simpa using this

theorem Over.lexemes_eq_cons (h : c.Over t) (hl : c.next.1.text ≠ []) :
    c.lexemes = c.next.1 :: c.next.2.lexemes := by
  rw [h.next_fst, h.lexemes_next]
  cases hc : c.lexemes with
  | nil => exact absurd (h.next_text_eq_nil_iff.2 hc) hl
  | cons l ls => rfl

theorem Over.next_of_lexemes_cons {l : Lexeme} {ls : List Lexeme} (h : c.Over t)
    (hl : c.lexemes = l :: ls) : c.next.1 = l ∧ c.next.2.lexemes = ls := by
  rw [h.next_fst, h.lexemes_next, hl]
  exact ⟨rfl, rfl⟩

/-- Nothing is left: the lexeme at the end is read, and still nothing is left. -/
theorem Over.next_of_lexemes_nil (h : c.Over t) (hl : c.lexemes = []) :
    c.next.1 = t.endLexeme ∧ c.next.2.lexemes = [] := by
  rw [h.next_fst, h.lexemes_next, hl]
  exact ⟨rfl, rfl⟩

theorem Over.lexemes_putBack (h : c.Over t) : c.putBack.lexemes = c.lexemes := by
  have hp := c.pushed_next
  have hn : c.next.2.lexemes = c.next.2.remainder.lexemes := by
    rw [lexemes, hp]
  by_cases hl : c.next.1.text = []
  · have hc := h.next_text_eq_nil_iff.1 hl
    rw [hc]
    simp only [putBack, lexemes, if_pos hl]
    rw [← hn]
    exact (h.next_of_lexemes_nil hc).2
  · rw [h.lexemes_eq_cons hl, hn]
    simp only [putBack, lexemes, if_neg hl]

theorem Over.putBack (h : c.Over t) : c.putBack.Over t := by
  refine ⟨h.next.remainder, ?_⟩
  intro l hl hnil
  cases hl
  have hc := h.next_text_eq_nil_iff.1 hnil
  have hs := (h.next_of_lexemes_nil hc).2
  rw [lexemes, c.pushed_next] at hs
  exact ⟨(h.next_of_lexemes_nil hc).1, hs⟩

/-- After blanks the cursor is at the end just when no lexeme is left. -/
theorem atEnd_skipBlanks_iff (hp : c.pushed = none) :
    c.skipBlanks.atEnd = true ↔ c.lexemes = [] := by
  have hs : c.skipBlanks.atEnd = true ↔ c.remainder.text.dropWhile Text.isBlank = [] := by
    simp [atEnd, skipBlanks, hp, Remainder.skipBlanks, Remainder.dropWhile]
  rw [hs, lexemes, hp]
  constructor
  · intro hd
    have ht := List.takeWhile_append_dropWhile (p := Text.isBlank) (l := c.remainder.text)
    rw [hd, List.append_nil] at ht
    exact Remainder.lexemes_of_isBlanks _ (ht ▸ Text.isBlanks_takeWhile _)
  · intro hl
    have hb := Remainder.isBlanks_of_lexemes_nil hl
    have hd : (c.remainder.text ++ []).dropWhile Text.isBlank = [] :=
      Text.dropWhile_append_stop hb (Text.stopsAt_nil _)
    rwa [List.append_nil] at hd

end Over

end PrefixCalc.Cursor
