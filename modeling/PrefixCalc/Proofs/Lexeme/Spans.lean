import Mathlib.Data.List.Chain
import Mathlib.Data.List.Sort
import PrefixCalc.Proofs.Lexeme.Concat
import PrefixCalc.Proofs.Lexeme.Unread

/-! # The one tiling of a text

`Text.Tiles` says of a list of lexemes, without reading anything, that they are pieces of the
text in order, that they hold all characters but the blanks, and that none of them could be
longer. Two tilings of a text have the same lexemes: where a lexeme of the one and a lexeme of
the other share a place they are equal. Reading gives a tiling, so it gives the only one. -/

namespace PrefixCalc
set_option autoImplicit false

/-- The place lies in the span of the lexeme. -/
def Lexeme.Holds (l : Lexeme) (i : Nat) : Prop := l.start ≤ i ∧ i < l.stop

namespace Text

/-- No bracket is in the lexeme, and next to it are blanks and brackets only. -/
structure IsRun (t : Text) (l : Lexeme) : Prop where
  chars : ∀ c ∈ l.text, isBracket c = false
  before : ∀ i c, i + 1 = l.start → t[i]? = some c → isBlank c = true ∨ isBracket c = true
  after : ∀ c, t[l.stop]? = some c → isBlank c = true ∨ isBracket c = true

structure Tiles (t : Text) (ls : List Lexeme) : Prop where
  nonempty : ∀ l ∈ ls, l.text ≠ []
  piece : ∀ l ∈ ls, (t.take l.stop).drop l.start = l.text
  ordered : ls.IsChain fun a b => a.stop ≤ b.start
  covered : ∀ i c, t[i]? = some c → (isBlank c = false ↔ ∃ l ∈ ls, l.Holds i)
  shape : ∀ l ∈ ls, (∃ c, isBracket c = true ∧ l.text = [c]) ∨ t.IsRun l

namespace Tiles
variable {t : Text} {ls ms : List Lexeme} {l m : Lexeme} {i : Nat}

theorem exists_getElem? (h : t.Tiles ls) (hl : l ∈ ls) (hi : l.Holds i) :
    ∃ c ∈ l.text, t[i]? = some c := by
  have hpiece := h.piece l hl
  have hlt : i - l.start < l.text.length := by
    have := hi.1
    have := hi.2
    unfold Lexeme.stop at this
    omega
  refine ⟨l.text[i - l.start], List.getElem_mem hlt, ?_⟩
  have hget : l.text[i - l.start]? = some l.text[i - l.start] := List.getElem?_eq_getElem hlt
  rw [← hget, ← hpiece, List.getElem?_drop, Nat.add_sub_cancel' hi.1,
    List.getElem?_take_of_lt hi.2]

theorem holds_start (h : t.Tiles ls) (hl : l ∈ ls) : l.Holds l.start := by
  have := List.length_pos_iff.mpr (h.nonempty l hl)
  constructor
  · exact Nat.le_refl _
  · unfold Lexeme.stop
    omega

/-- A blank or a bracket at a place of a lexeme is a bracket, and the lexeme is this bracket. -/
theorem single_of_border {c : Char} (h : t.Tiles ls) (hl : l ∈ ls) (hi : l.Holds i)
    (hc : t[i]? = some c) (hb : isBlank c = true ∨ isBracket c = true) :
    l.start = i ∧ l.stop = i + 1 := by
  have hblank : isBlank c = false := (h.covered i c hc).mpr ⟨l, hl, hi⟩
  have hbracket : isBracket c = true := by
    rcases hb with hb | hb
    · rw [hblank] at hb
      cases hb
    · exact hb
  obtain ⟨a, ha, hat⟩ := h.exists_getElem? hl hi
  rw [hc] at hat
  cases hat
  rcases h.shape l hl with ⟨b, _, htext⟩ | hrun
  · obtain ⟨hlo, hhi⟩ := hi
    simp only [Lexeme.stop, htext, List.length_singleton] at hhi ⊢
    omega
  · rw [hrun.chars c ha] at hbracket
    cases hbracket

theorem start_le (h : t.Tiles ls) (h' : t.Tiles ms) (hl : l ∈ ls) (hm : m ∈ ms)
    (hi : l.Holds i) (hi' : m.Holds i) : l.start ≤ m.start := by
  rcases h.shape l hl with ⟨b, hb, htext⟩ | hrun
  · -- a bracket of the one tiling is a bracket of the other
    obtain ⟨c, hc, hat⟩ := h.exists_getElem? hl hi
    rw [htext, List.mem_singleton] at hc
    subst c
    obtain ⟨hs, _⟩ := h'.single_of_border hm hi' hat (Or.inr hb)
    exact hs ▸ hi.1
  · by_contra hlt
    -- the character before the run lies in the other lexeme, which is then too short
    obtain ⟨j, hj⟩ : ∃ j, j + 1 = l.start := ⟨l.start - 1, by omega⟩
    have hlo := hi.1
    have hhi := hi'.2
    have hholds : m.Holds j := ⟨by omega, by omega⟩
    obtain ⟨c, _, hat⟩ := h'.exists_getElem? hm hholds
    obtain ⟨_, hs⟩ := h'.single_of_border hm hholds hat (hrun.before j c hj hat)
    omega

theorem stop_le (h : t.Tiles ls) (h' : t.Tiles ms) (hl : l ∈ ls) (hm : m ∈ ms)
    (hi : l.Holds i) (hi' : m.Holds i) : m.stop ≤ l.stop := by
  rcases h.shape l hl with ⟨b, hb, htext⟩ | hrun
  · obtain ⟨c, hc, hat⟩ := h.exists_getElem? hl hi
    rw [htext, List.mem_singleton] at hc
    subst c
    obtain ⟨_, hs⟩ := h'.single_of_border hm hi' hat (Or.inr hb)
    have := hi.2
    omega
  · by_contra hlt
    have hlo := hi'.1
    have hhi := hi.2
    have hholds : m.Holds l.stop := ⟨by omega, by omega⟩
    obtain ⟨c, _, hat⟩ := h'.exists_getElem? hm hholds
    obtain ⟨hs, _⟩ := h'.single_of_border hm hholds hat (hrun.after c hat)
    omega

/-- Lexemes of two tilings that share a place are equal. -/
theorem eq_of_holds (h : t.Tiles ls) (h' : t.Tiles ms) (hl : l ∈ ls) (hm : m ∈ ms)
    (hi : l.Holds i) (hi' : m.Holds i) : l = m := by
  have hstart : l.start = m.start :=
    Nat.le_antisymm (h.start_le h' hl hm hi hi') (h'.start_le h hm hl hi' hi)
  have hstop : l.stop = m.stop :=
    Nat.le_antisymm (h'.stop_le h hm hl hi' hi) (h.stop_le h' hl hm hi hi')
  have htext : l.text = m.text := by
    rw [← h.piece l hl, ← h'.piece m hm, hstart, hstop]
  cases l
  cases m
  cases htext
  cases hstart
  rfl

theorem mem_of_mem (h : t.Tiles ls) (h' : t.Tiles ms) (hl : l ∈ ls) : l ∈ ms := by
  have hi := h.holds_start hl
  obtain ⟨c, _, hat⟩ := h.exists_getElem? hl hi
  have hblank : isBlank c = false := (h.covered _ c hat).mpr ⟨l, hl, hi⟩
  obtain ⟨m, hm, hi'⟩ := (h'.covered _ c hat).mp hblank
  rwa [h.eq_of_holds h' hl hm hi hi']

theorem pairwise_start (h : t.Tiles ls) : ls.Pairwise fun a b => a.start < b.start := by
  have : IsTrans Lexeme fun a b => a.start < b.start := ⟨fun _ _ _ => Nat.lt_trans⟩
  apply List.IsChain.pairwise
  apply h.ordered.imp_of_mem_imp
  intro a b ha _ hab
  exact Nat.lt_of_lt_of_le (h.holds_start ha).2 hab

theorem unique (h : t.Tiles ls) (h' : t.Tiles ms) : ms = ls := by
  have : Std.Irrefl fun a b : Lexeme => a.start < b.start := ⟨fun _ => Nat.lt_irrefl _⟩
  have : Std.Antisymm fun a b : Lexeme => a.start < b.start :=
    ⟨fun _ _ hab hba => absurd hab (Nat.lt_asymm hba)⟩
  apply h'.pairwise_start.eq_of_mem_iff h.pairwise_start
  intro l
  exact ⟨h'.mem_of_mem h, h.mem_of_mem h'⟩

end Tiles
end Text

/-! ## Reading tiles the text -/

namespace Remainder

theorem exists_holds_of_getElem? {r : Remainder} {i : Nat} {c : Char} (hc : r.text[i]? = some c)
    (hb : Text.isBlank c = false) : ∃ l ∈ r.lexemes, l.Holds (r.pos + i) := by
  -- on the lexemes: the place lies in the first one or in what follows it
  induction hls : r.lexemes generalizing r i with
  | nil =>
    have hblank := isBlanks_of_lexemes_nil hls c (List.mem_of_getElem? hc)
    rw [hb] at hblank
    cases hblank
  | cons l ls ih =>
    obtain ⟨blanks, rest, htext, hblanks, _, hstart, hrest⟩ := exists_text_of_lexemes_cons hls
    rw [htext] at hc
    have hlo : blanks.length ≤ i := by
      by_contra hlt
      rw [List.getElem?_append_left (by omega)] at hc
      rw [hblanks c (List.mem_of_getElem? hc)] at hb
      cases hb
    rw [List.getElem?_append_right hlo] at hc
    by_cases hhi : i - blanks.length < l.text.length
    · refine ⟨l, List.mem_cons_self, ?_⟩
      unfold Lexeme.Holds Lexeme.stop
      omega
    · rw [List.getElem?_append_right (by omega)] at hc
      obtain ⟨m, hm, hholds⟩ := ih (r := ⟨rest, l.stop⟩) hc hrest
      refine ⟨m, List.mem_cons_of_mem l hm, ?_⟩
      have hplace : l.stop + (i - blanks.length - l.text.length) = r.pos + i := by
        unfold Lexeme.stop
        omega
      exact hplace ▸ hholds

end Remainder

namespace Text
variable {t : Text} {ls ms : List Lexeme} {l : Lexeme}

theorem Parted.append_blanks {p blanks s : Text} (h : Parted p (blanks ++ s))
    (hb : IsBlanks blanks) : Parted (p ++ blanks) s := by
  by_cases hne : blanks = []
  · subst hne
    rwa [List.append_nil]
  · left
    intro c hc
    rw [List.getLast?_append_of_ne_nil _ hne] at hc
    exact isWord_of_isBlank (hb c (List.mem_of_getLast? hc))

/-- The text around one of its lexemes. -/
theorem exists_around (h : t.lexemes = ls ++ l :: ms) :
    ∃ p q, t = p ++ (l.text ++ q) ∧ p.length = l.start ∧ IsLexeme l.text q ∧
      Parted p (l.text ++ q) := by
  obtain ⟨p, s, ht, hparted, _, hms, _⟩ := Remainder.exists_parts (r := Remainder.ofText t) h
  obtain ⟨blanks, q, hs, hb, hl, hstart, _⟩ := Remainder.exists_text_of_lexemes_cons hms
  dsimp only [Remainder.ofText] at ht hs hstart
  subst hs
  refine ⟨p ++ blanks, q, ?_, ?_, hl, hparted.append_blanks hb⟩
  · rw [ht, List.append_assoc]
  · rw [hstart, Nat.zero_add, List.length_append]

theorem isBlank_or_isBracket {c : Char} (h : isWord c = false) :
    isBlank c = true ∨ isBracket c = true := by
  cases hb : isBlank c with
  | true => exact Or.inl rfl
  | false => exact Or.inr (by simpa [isWord, hb] using h)

theorem isRun_of_word {p q : Text} (ht : t = p ++ (l.text ++ q)) (hp : p.length = l.start)
    (hparted : Parted p (l.text ++ q)) (nonempty : l.text ≠ [])
    (chars : ∀ c ∈ l.text, isWord c = true) (stops : StopsAt isWord q) : t.IsRun l where
  chars c hc := (isWord_iff.mp (chars c hc)).2
  before := by
    intro i c hi hc
    have hlast : p.getLast? = some c := by
      rw [List.getLast?_eq_getElem?, hp, ← hi, Nat.add_sub_cancel, ← hc, ht]
      exact (List.getElem?_append_left (by omega)).symm
    apply isBlank_or_isBracket
    rcases hparted with hparted | hparted
    · exact hparted c hlast
    · -- a run starts with a word character, so that the border is before it
      obtain ⟨a, w, hw⟩ := List.exists_cons_of_ne_nil nonempty
      have hword := chars a (by rw [hw]; exact List.mem_cons_self)
      rw [hparted a (by rw [hw]; rfl)] at hword
      cases hword
  after := by
    intro c hc
    apply isBlank_or_isBracket
    apply stops
    have hstop : l.stop = (p ++ l.text).length := by
      rw [Lexeme.stop, List.length_append, hp]
    rw [ht, hstop, ← List.append_assoc, List.getElem?_append_right (Nat.le_refl _),
      Nat.sub_self, ← List.head?_eq_getElem?] at hc
    exact hc

theorem tiles_lexemes (t : Text) : t.Tiles t.lexemes where
  nonempty _ hl := Remainder.text_ne_nil_of_mem_lexemes hl
  piece := by
    intro l hl
    obtain ⟨p, q, ht, hp, _⟩ := (Remainder.of_ofText t).exists_piece hl
    rw [ht, ← hp, Lexeme.stop, ← hp, List.take_length_add_append, List.drop_left,
      List.take_left]
  ordered := by
    apply List.isChain_iff_forall_rel_of_append_cons_cons.mpr
    intro a b ls ms h
    exact stop_le_start h
  covered := by
    intro i c hc
    constructor
    · intro hb
      have h := Remainder.exists_holds_of_getElem? (r := Remainder.ofText t) hc hb
      rwa [show (Remainder.ofText t).pos + i = i from Nat.zero_add i] at h
    · rintro ⟨l, hl, hlo, hhi⟩
      obtain ⟨p, q, ht, hp, hw⟩ := (Remainder.of_ofText t).exists_piece hl
      apply hw.not_blank
      unfold Lexeme.stop at hhi
      rw [ht, List.getElem?_append_right (by omega), List.getElem?_append_left (by omega)] at hc
      exact List.mem_of_getElem? hc
  shape := by
    intro l hl
    obtain ⟨ls, ms, h⟩ := List.append_of_mem hl
    obtain ⟨p, q, ht, hp, hw, hparted⟩ := exists_around h
    generalize htext : l.text = w at hw
    cases hw with
    | bracket hb => exact Or.inl ⟨_, hb, rfl⟩
    | word nonempty chars stops =>
      subst htext
      exact Or.inr (isRun_of_word ht hp hparted nonempty chars stops)

end Text

namespace Cursor

/-- Reading gives these lexemes one after the other, none of them empty, and then this empty
one. -/
inductive ReadsOut : Cursor → List Lexeme → Lexeme → Prop where
  | stop {c : Cursor} (h : c.next.1.text = []) : ReadsOut c [] c.next.1
  | read {c : Cursor} {ls : List Lexeme} {e : Lexeme} (h : c.next.1.text ≠ [])
      (rest : ReadsOut c.next.2 ls e) : ReadsOut c (c.next.1 :: ls) e

theorem Over.readsOut {t : Text} {c : Cursor} (h : c.Over t) :
    c.ReadsOut c.lexemes t.endLexeme := by
  induction hls : c.lexemes generalizing c with
  | nil =>
    have hend := (h.next_of_lexemes_nil hls).1
    rw [← hend]
    exact .stop (h.next_text_eq_nil_iff.mpr hls)
  | cons l ls ih =>
    obtain ⟨hl, hrest⟩ := h.next_of_lexemes_cons hls
    have hne : c.next.1.text ≠ [] := by
      rw [hl]
      exact text_ne_nil_of_mem_lexemes (c := c) (by rw [hls]; exact List.mem_cons_self)
    rw [← hl]
    exact .read hne (ih h.next hrest)

end Cursor

/-- Reading a text comes to an end, where it gives the empty lexeme at the end of the text; the
lexemes before it tile the text, and no others do. -/
theorem lexemes_tile_text (t : Text) :
    ∃ ls : List Lexeme, (Cursor.ofText t).ReadsOut ls ⟨[], t.length⟩ ∧ t.Tiles ls ∧
      ∀ ms, t.Tiles ms → ms = ls := by
  refine ⟨t.lexemes, (Cursor.over_ofText t).readsOut, t.tiles_lexemes, ?_⟩
  intro ms h
  exact t.tiles_lexemes.unique h

end PrefixCalc
