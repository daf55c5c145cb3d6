import PrefixCalc.Lexeme.Basic

/-! # A cursor with room for one lexeme

A cursor walks over the lexemes of a text. A lexeme that was read can be pushed back; it
is kept in a slot until it is read again, and the slot holds one lexeme only. -/

namespace PrefixCalc
set_option autoImplicit false

structure Cursor where
  remainder : Remainder
  pushed : Option Lexeme
deriving DecidableEq

namespace Cursor

def ofText (t : Text) : Cursor := ⟨.ofText t, none⟩

def pos (c : Cursor) : Nat := c.remainder.pos

/-- Nothing is left to read: not even in the slot. -/
def atEnd (c : Cursor) : Bool := c.pushed.isNone && c.remainder.text.isEmpty

def skipBlanks (c : Cursor) : Cursor := { c with remainder := c.remainder.skipBlanks }

/-- The lexeme in the slot if there is one, else the next lexeme of the text. -/
def next (c : Cursor) : Lexeme × Cursor :=
  match c.pushed with
  | some l => (l, ⟨c.remainder, none⟩)
  | none => (c.remainder.next.1, ⟨c.remainder.next.2, none⟩)

/-- The lexeme goes into the slot, if the slot is empty. -/
def pushBack? (c : Cursor) (l : Lexeme) : Option Cursor :=
  match c.pushed with
  | some _ => none
  | none => some ⟨c.remainder, some l⟩

/-- The characters still to be read, those in the slot included. -/
def unread (c : Cursor) : Nat :=
  c.remainder.text.length + (match c.pushed with | some l => l.text.length | none => 0)

theorem unread_next_le (c : Cursor) : c.next.1.text.length + c.next.2.unread ≤ c.unread := by
  unfold next unread
  split
  · dsimp only
    omega
  · have := c.remainder.length_next_le
    dsimp only
    omega

theorem unread_next_lt {c : Cursor} (h : c.next.1.text ≠ []) : c.next.2.unread < c.unread := by
  have := c.unread_next_le
  have := List.length_pos_iff.2 h
  omega

@[simp] theorem pushed_next (c : Cursor) : c.next.2.pushed = none := by
  unfold next
  split <;> rfl

theorem unread_pushBack? {c d : Cursor} {l : Lexeme} (h : c.pushBack? l = some d) :
    d.unread = c.unread + l.text.length := by
  unfold pushBack? at h
  split at h
  · cases h
  · rename_i hp
    cases h
    simp [unread, hp]

def slotFullMessage : Text := "Only one lexeme of pushback is supported".toList

end Cursor
end PrefixCalc
