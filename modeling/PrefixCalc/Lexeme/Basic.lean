import PrefixCalc.Text.Basic

/-! # Lexemes

A lexeme is a bracket, or a longest run of word characters, with the place where it
starts. The empty lexeme at the end of a text says that nothing is left. -/

namespace PrefixCalc
set_option autoImplicit false

structure Lexeme where
  text : Text
  start : Nat
deriving DecidableEq

namespace Lexeme

def stop (l : Lexeme) : Nat := l.start + l.text.length

def isEnd (l : Lexeme) : Bool := l.text.isEmpty

end Lexeme

/-- The rest of a text together with the place where it starts. -/
structure Remainder where
  text : Text
  pos : Nat
deriving DecidableEq

namespace Remainder

def ofText (t : Text) : Remainder := ⟨t, 0⟩

def dropWhile (p : Char → Bool) (r : Remainder) : Remainder :=
  ⟨r.text.dropWhile p, r.pos + (r.text.takeWhile p).length⟩

def skipBlanks (r : Remainder) : Remainder := r.dropWhile Text.isBlank

/-- The lexeme at the start of a remainder that starts with no blank, and what follows it. -/
def cut (r : Remainder) : Lexeme × Remainder :=
  match r.text with
  | [] => (⟨[], r.pos⟩, r)
  | c :: t =>
    if Text.isBracket c then (⟨[c], r.pos⟩, ⟨t, r.pos + 1⟩)
    else (⟨(c :: t).takeWhile Text.isWord, r.pos⟩, r.dropWhile Text.isWord)

/-- The next lexeme after any blanks, and what follows it. -/
def next (r : Remainder) : Lexeme × Remainder := r.skipBlanks.cut

@[simp] theorem length_dropWhile (p : Char → Bool) (r : Remainder) :
    (r.dropWhile p).text.length + (r.text.takeWhile p).length = r.text.length := by
  have h := congrArg List.length (List.takeWhile_append_dropWhile (p := p) (l := r.text))
  rw [List.length_append] at h
  simp only [dropWhile]
  omega

theorem length_skipBlanks_le (r : Remainder) : r.skipBlanks.text.length ≤ r.text.length := by
  have h := r.length_dropWhile Text.isBlank
  unfold skipBlanks
  omega

theorem length_cut (r : Remainder) :
    r.cut.1.text.length + r.cut.2.text.length = r.text.length := by
  unfold cut
  split
  · rename_i h
    simp [h]
  · rename_i c t h
    split
    · simp [h]
      omega
    · have := r.length_dropWhile Text.isWord
      simp only [h] at this ⊢
      omega

/-- A lexeme uses up its own characters, and blanks before it. -/
theorem length_next_le (r : Remainder) :
    r.next.1.text.length + r.next.2.text.length ≤ r.text.length := by
  have h := r.skipBlanks.length_cut
  have := r.length_skipBlanks_le
  unfold next
  omega

/-- The lexemes of the remainder in order, without the empty one at the end. -/
def lexemes (r : Remainder) : List Lexeme :=
  if r.next.1.text = [] then [] else r.next.1 :: lexemes r.next.2
termination_by r.text.length
decreasing_by
  rename_i h
  have := r.length_next_le
  have := List.length_pos_iff.2 h
  omega

end Remainder

namespace Text

def lexemes (t : Text) : List Lexeme := (Remainder.ofText t).lexemes

end Text
end PrefixCalc
