import Mathlib.Data.List.GetD
import PrefixCalc.Proofs.Lexeme.Concat
import PrefixCalc.Proofs.Lexeme.Unread

/-! # Reading with pushback moves an index

The lexemes of a text go on forever with the empty lexeme at its end. A reader that reads, skips
blanks and pushes back what it read last behaves like an index into this sequence: the answers
are the same over every sequence of actions. The cursor of the reader may be ahead of its slot,
and blanks may be skipped while a lexeme is in the slot; the index knows nothing of this. -/

namespace PrefixCalc
set_option autoImplicit false

/-- The lexemes of the text, and behind them the empty lexeme at its end again and again. -/
def Text.lexemeAt (t : Text) (k : Nat) : Lexeme := t.lexemes.getD k t.endLexeme

namespace Cursor

inductive Action where
  | next
  | skipBlanks
  | pushBack
deriving DecidableEq

inductive Answer where
  | lexeme (l : Lexeme)
  | done
  | slotFull
  /-- No lexeme was read yet that could be pushed back. -/
  | nothingRead
deriving DecidableEq

/-- The answers to the actions, and the state after them. -/
def answers {σ : Type} (act : σ → Action → Answer × σ) : σ → List Action → List Answer × σ
  | s, [] => ([], s)
  | s, a :: as =>
    let (x, s) := act s a
    let (xs, s) := answers act s as
    (x :: xs, s)

/-- A cursor, and the lexeme that was read from it last. -/
structure Reader where
  cursor : Cursor
  last : Option Lexeme

def Reader.ofText (t : Text) : Reader := ⟨.ofText t, none⟩

def Reader.act (r : Reader) : Action → Answer × Reader
  | .next => (.lexeme r.cursor.next.1, ⟨r.cursor.next.2, some r.cursor.next.1⟩)
  | .skipBlanks => (.done, { r with cursor := r.cursor.skipBlanks })
  | .pushBack =>
    match r.last with
    | none => (.nothingRead, r)
    | some l =>
      match r.cursor.pushBack? l with
      | some c => (.done, { r with cursor := c })
      | none => (.slotFull, r)

/-- An index into the lexemes of a text. A lexeme that was pushed back is the next one again,
and no other can be pushed back before it is read. -/
structure Index where
  index : Nat
  pushed : Bool
deriving DecidableEq

namespace Index

def start : Index := ⟨0, false⟩

def act (t : Text) (i : Index) : Action → Answer × Index
  | .next => (.lexeme (t.lexemeAt i.index), ⟨i.index + 1, false⟩)
  | .skipBlanks => (.done, i)
  | .pushBack =>
    if i.pushed then (.slotFull, i)
    else if i.index = 0 then (.nothingRead, i)
    else (.done, ⟨i.index - 1, true⟩)

/-- The lexeme in the slot. -/
def slot (t : Text) (i : Index) : Option Lexeme :=
  if i.pushed then some (t.lexemeAt i.index) else none

/-- The lexeme that was read last. -/
def last (t : Text) : Index → Option Lexeme
  | ⟨k, true⟩ => some (t.lexemeAt k)
  | ⟨0, false⟩ => none
  | ⟨k + 1, false⟩ => some (t.lexemeAt k)

end Index
end Cursor

/-! ## Places -/

namespace Remainder

theorem lexemes_skipBlanks (r : Remainder) : r.skipBlanks.lexemes = r.lexemes := by
  have h := lexemes_blanks_append (r.text.dropWhile Text.isBlank) r.pos
    (Text.isBlanks_takeWhile r.text)
  rw [List.takeWhile_append_dropWhile] at h
  exact h.symm

theorem pos_le_next (r : Remainder) : r.pos ≤ r.next.2.pos := by
  have hc := r.cut_next
  generalize r.next.1 = l at hc
  generalize r.next.2 = r' at hc
  cases hc with
  | lexeme => exact Nat.le_trans (Nat.le_add_right _ _) (Nat.le_add_right _ _)
  | finish => exact Nat.le_add_right _ _

end Remainder

namespace Text
variable {t : Text} {k : Nat}

theorem headD_drop_lexemes (t : Text) (k : Nat) :
    (t.lexemes.drop k).headD t.endLexeme = t.lexemeAt k := by
  rw [List.headD_eq_head?_getD, List.head?_drop]
  rfl

theorem lexemeAt_of_lt (h : k < t.lexemes.length) : t.lexemeAt k = t.lexemes[k] :=
  List.getD_eq_getElem _ _ h

theorem lexemeAt_of_le (h : t.lexemes.length ≤ k) : t.lexemeAt k = t.endLexeme :=
  List.getD_eq_default _ _ h

/-- Only the lexeme at the end is empty. -/
theorem lexemeAt_text_eq_nil_iff : (t.lexemeAt k).text = [] ↔ t.lexemes.length ≤ k := by
  constructor
  · intro h
    by_contra hlt
    rw [lexemeAt_of_lt (by omega)] at h
    exact Remainder.text_ne_nil_of_mem_lexemes (List.getElem_mem _) h
  · intro h
    rw [lexemeAt_of_le h]
    rfl

end Text

namespace Cursor

/-- The reader stands where the index points. -/
structure Simulates (t : Text) (r : Reader) (i : Index) : Prop where
  place : r.cursor.Over t
  slot : r.cursor.pushed = i.slot t
  ahead : r.cursor.lexemes = t.lexemes.drop i.index
  last : r.last = i.last t

namespace Simulates
variable {t : Text} {r : Reader} {i : Index}

theorem start (t : Text) : Simulates t (.ofText t) .start where
  place := over_ofText t
  slot := rfl
  ahead := rfl
  last := rfl

theorem next_fst (h : Simulates t r i) : r.cursor.next.1 = t.lexemeAt i.index := by
  rw [h.place.next_fst, h.ahead, Text.headD_drop_lexemes]

theorem next (h : Simulates t r i) :
    (r.act .next).1 = (i.act t .next).1 ∧ Simulates t (r.act .next).2 (i.act t .next).2 := by
  constructor
  · exact congrArg Answer.lexeme h.next_fst
  · constructor
    · exact h.place.next
    · exact r.cursor.pushed_next
    · change r.cursor.next.2.lexemes = _
      rw [h.place.lexemes_next, h.ahead, List.tail_drop]
      rfl
    · exact congrArg some h.next_fst

theorem skipBlanks (h : Simulates t r i) : Simulates t (r.act .skipBlanks).2 i := by
  have hlex : r.cursor.remainder.skipBlanks.lexemes = r.cursor.remainder.lexemes :=
    r.cursor.remainder.lexemes_skipBlanks
  constructor
  · constructor
    · exact h.place.remainder.skipBlanks
    · intro l hl hnil
      obtain ⟨hend, hrest⟩ := h.place.pushed l hl hnil
      exact ⟨hend, hlex.trans hrest⟩
  · exact h.slot
  · rw [← h.ahead]
    simp only [Reader.act, Cursor.lexemes, Cursor.skipBlanks, hlex]
  · exact h.last

theorem act_pushBack_of_pushed (h : Simulates t r i) (hi : i.pushed = true) :
    r.act .pushBack = (.slotFull, r) := by
  obtain ⟨k, pushed⟩ := i
  cases hi
  have hslot := h.slot
  have hlast := h.last
  simp only [Index.slot, Index.last, if_true] at hslot hlast
  simp only [Reader.act, hlast, pushBack?, hslot]

/-- The lexeme that was read last goes back into the slot. -/
theorem pushBack_of_free {k : Nat} (h : Simulates t r ⟨k + 1, false⟩) :
    r.act .pushBack = (.done, ⟨⟨r.cursor.remainder, some (t.lexemeAt k)⟩, r.last⟩) ∧
      Simulates t ⟨⟨r.cursor.remainder, some (t.lexemeAt k)⟩, r.last⟩ ⟨k, true⟩ := by
  have hslot : r.cursor.pushed = none := h.slot
  have hlast : r.last = some (t.lexemeAt k) := h.last
  have hrest : r.cursor.remainder.lexemes = t.lexemes.drop (k + 1) := by
    have := h.ahead
    rwa [Cursor.lexemes, hslot] at this
  constructor
  · simp only [Reader.act, hlast, pushBack?, hslot]
  constructor
  · refine ⟨h.place.remainder, ?_⟩
    intro l hl hnil
    cases hl
    have hk := Text.lexemeAt_text_eq_nil_iff.mp hnil
    constructor
    · exact Text.lexemeAt_of_le hk
    · rw [hrest]
      exact List.drop_eq_nil_of_le (by omega)
  · rfl
  · simp only [Cursor.lexemes, hrest]
    by_cases hk : k < t.lexemes.length
    · have hne : ¬ (t.lexemeAt k).text = [] := by
        rw [Text.lexemeAt_text_eq_nil_iff]
        omega
      rw [if_neg hne, Text.lexemeAt_of_lt hk, ← List.drop_eq_getElem_cons]
    · have hnil := Text.lexemeAt_text_eq_nil_iff.mpr (Nat.le_of_not_lt hk)
      rw [if_pos hnil, List.drop_eq_nil_of_le (by omega), List.drop_eq_nil_of_le (by omega)]
  · exact hlast

theorem pushBack (h : Simulates t r i) :
    (r.act .pushBack).1 = (i.act t .pushBack).1 ∧
      Simulates t (r.act .pushBack).2 (i.act t .pushBack).2 := by
  obtain ⟨k, pushed⟩ := i
  cases pushed with
  | true =>
    rw [h.act_pushBack_of_pushed rfl]
    exact ⟨rfl, h⟩
  | false =>
    cases k with
    | zero =>
      have hlast : r.last = none := h.last
      have hact : r.act .pushBack = (.nothingRead, r) := by
        simp only [Reader.act, hlast]
      rw [hact]
      exact ⟨rfl, h⟩
    | succ k =>
      obtain ⟨hact, hs⟩ := h.pushBack_of_free
      rw [hact]
      exact ⟨rfl, hs⟩

/-- Every action is answered as the index says, and keeps the reader at the index. -/
theorem act (h : Simulates t r i) (a : Action) :
    (r.act a).1 = (i.act t a).1 ∧ Simulates t (r.act a).2 (i.act t a).2 := by
  cases a with
  | next => exact h.next
  | skipBlanks => exact ⟨rfl, h.skipBlanks⟩
  | pushBack => exact h.pushBack

theorem answers_eq (h : Simulates t r i) (as : List Action) :
    (answers Reader.act r as).1 = (answers (Index.act t) i as).1 ∧
      Simulates t (answers Reader.act r as).2 (answers (Index.act t) i as).2 := by
  induction as generalizing r i with
  | nil => exact ⟨rfl, h⟩
  | cons a as ih =>
    obtain ⟨hx, hs⟩ := h.act a
    obtain ⟨hxs, hs⟩ := ih hs
    constructor
    · simp only [answers, hx, hxs]
    · exact hs

end Simulates

/-! ## What a reader shows -/

theorem pos_le_act (r : Reader) (a : Action) : r.cursor.pos ≤ (r.act a).2.cursor.pos := by
  cases a with
  | next =>
    change r.cursor.pos ≤ r.cursor.next.2.pos
    unfold Cursor.next
    split
    · exact Nat.le_refl _
    · exact r.cursor.remainder.pos_le_next
  | skipBlanks => exact Nat.le_add_right _ _
  | pushBack =>
    unfold Reader.act Cursor.pushBack?
    cases r.last with
    | none => exact Nat.le_refl _
    | some l => cases r.cursor.pushed <;> exact Nat.le_refl _

/-- What is seen of a reader at an index: its slot, its place in the text, what a skip and a
push-back do that the index does not notice, and whether it is at the end. -/
structure Shows (t : Text) (r : Reader) (i : Index) : Prop where
  slot : r.cursor.pushed = i.slot t
  within : r.cursor.pos ≤ t.length
  forward : ∀ a, r.cursor.pos ≤ (r.act a).2.cursor.pos
  refused : r.cursor.pushed.isSome = true → r.act .pushBack = (.slotFull, r)
  skipped : ∀ as, (answers Reader.act (r.act .skipBlanks).2 as).1 =
    (answers Reader.act r as).1
  ahead : r.cursor.pushed.isSome = true → r.cursor.atEnd = false
  atEnd : r.cursor.pushed = none →
    ((r.act .skipBlanks).2.cursor.atEnd = true ↔ (t.lexemeAt i.index).text = [])

theorem Simulates.shows {t : Text} {r : Reader} {i : Index} (h : Simulates t r i) :
    Shows t r i where
  slot := h.slot
  within := by
    have := h.place.remainder.pos_add_length
    unfold pos
    omega
  forward := pos_le_act r
  refused := by
    intro hs
    apply h.act_pushBack_of_pushed
    rw [h.slot] at hs
    unfold Index.slot at hs
    split at hs
    · assumption
    · cases hs
  skipped := by
    intro as
    rw [(h.skipBlanks.answers_eq as).1, (h.answers_eq as).1]
  ahead := by
    intro hs
    simp [Cursor.atEnd, Option.isSome_iff_ne_none.mp hs]
  atEnd := by
    intro hs
    rw [Text.lexemeAt_text_eq_nil_iff, ← List.drop_eq_nil_iff, ← h.ahead]
    exact atEnd_skipBlanks_iff hs

/-- Whatever is done with the lexemes of a text, the answers are those of an index that starts
at the first lexeme, and in every state the reader shows where the index is. -/
theorem reader_follows_index (t : Text) (as : List Action) :
    (answers Reader.act (.ofText t) as).1 = (answers (Index.act t) .start as).1 ∧
      Shows t (answers Reader.act (.ofText t) as).2 (answers (Index.act t) .start as).2 := by
  obtain ⟨hanswers, hsimulates⟩ := (Simulates.start t).answers_eq as
  exact ⟨hanswers, hsimulates.shows⟩

/-- At the end of a text the empty lexeme is pushed back and read again, and a second push-back
before that is refused. -/
example : (answers Reader.act (.ofText []) [.next, .pushBack, .pushBack, .next]).1 =
    [.lexeme ⟨[], 0⟩, .done, .slotFull, .lexeme ⟨[], 0⟩] := by
  decide

end Cursor
end PrefixCalc
