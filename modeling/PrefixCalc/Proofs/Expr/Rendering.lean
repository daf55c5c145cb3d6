import PrefixCalc.Expr.Basic
import PrefixCalc.Proofs.Grammar
import PrefixCalc.Proofs.Lexeme.Tiling
import PrefixCalc.Proofs.Number.Format

/-! # Words of the bracketed form

The bracketed form of an expression is taken apart into the words that it was put together
from: brackets, symbols, names and numbers, each of them a lexeme of its own. -/

namespace PrefixCalc
set_option autoImplicit false

namespace Binary64

/-- Every double is written as one word, the infinities and not-a-number too. -/
theorem isWord_of_mem_format (v : Binary64) : ∀ c ∈ v.format, Text.isWord c = true := by
  cases v with
  | nan => exact List.all_eq_true.1 (by decide)
  | inf s => cases s <;> exact List.all_eq_true.1 (by decide)
  | finite s m =>
    obtain ⟨l, hv, ht, _⟩ := exists_literal_format (v := .finite s m) rfl
    rw [← ht]
    exact hv.isWord

theorem format_ne_nil (v : Binary64) : v.format ≠ [] := by
  cases v with
  | nan => decide
  | inf s => cases s <;> decide
  | finite s m =>
    obtain ⟨l, _, ht, _, hne, _⟩ := exists_literal_format (v := .finite s m) rfl
    rw [← ht, Literal.toText_eq]
    simp [hne]

end Binary64

namespace Expr

mutual

/-- The words that the bracketed form is put together from. -/
def prefixWords : Expr → List Text
  | const v => [v.format]
  | var i => [i.name]
  | node op es => ['('] :: op.symbol :: (operandWords es ++ [[')']])

def operandWords : List Expr → List Text
  | [] => []
  | e :: es => prefixWords e ++ operandWords es

end

@[simp] theorem prefixWords_const (v : Binary64) : (const v).prefixWords = [v.format] := by
  rw [prefixWords]

@[simp] theorem prefixWords_var (i : Variable) : (var i).prefixWords = [i.name] := by
  rw [prefixWords]

theorem words_append_of_word {w rest : Text} (hne : w ≠ []) (hw : ∀ c ∈ w, Text.isWord c = true)
    (hr : Text.StopsAt Text.isWord rest) : Text.words (w ++ rest) = w :: rest.words :=
  Text.words_of_isLexeme Text.isBlanks_nil (.word hne hw hr)

theorem words_cons_bracket {c : Char} (rest : Text) (hc : Text.isBracket c = true) :
    Text.words (c :: rest) = [c] :: rest.words := by
  have hw : Text.IsLexeme [c] rest := .bracket hc
  exact Text.words_of_isLexeme Text.isBlanks_nil hw

theorem stopsAt_operandsText_append (es : List Expr) {rest : Text}
    (hr : Text.StopsAt Text.isWord rest) : Text.StopsAt Text.isWord (operandsText es ++ rest) := by
  cases es with
  | nil =>
    rw [operandsText_nil]
    exact hr
  | cons e es =>
    intro c hc
    rw [operandsText_cons] at hc
    cases Option.mem_def.1 hc
    decide

theorem stopsAt_operandsText (es : List Expr) (rest : Text) :
    Text.StopsAt Text.isWord (operandsText es ++ ')' :: rest) :=
  stopsAt_operandsText_append es (Text.stopsAt_closing rest)

theorem words_cons_space (t : Text) : Text.words (' ' :: t) = t.words :=
  Text.words_blanks_append t Text.isBlanks_space

mutual

theorem words_toPrefix_append : ∀ (e : Expr) {rest : Text}, Text.StopsAt Text.isWord rest →
    Text.words (e.toPrefix ++ rest) = e.prefixWords ++ rest.words
  | const v, rest, hr => by
    rw [toPrefix, prefixWords]
    exact words_append_of_word v.format_ne_nil v.isWord_of_mem_format hr
  | var i, rest, hr => by
    rw [toPrefix, prefixWords]
    exact words_append_of_word (name_ne_nil i) (isWord_of_mem_name i) hr
  | node op es, rest, hr => by
    have hop := words_append_of_word (symbol_ne_nil op) (isWord_of_mem_symbol op)
      (stopsAt_operandsText es rest)
    have hes := words_operandsText_append es rest
    rw [toPrefix, prefixWords]
    simp only [List.cons_append, List.append_assoc, List.nil_append]
    rw [words_cons_bracket _ (by decide), hop, hes, words_cons_bracket _ (by decide)]

theorem words_operandsText_append : ∀ (es : List Expr) (rest : Text),
    Text.words (operandsText es ++ ')' :: rest) = operandWords es ++ Text.words (')' :: rest)
  | [], rest => by
    rw [operandsText_nil, operandWords]
    rfl
  | e :: es, rest => by
    have he := words_toPrefix_append e (stopsAt_operandsText es rest)
    have hes := words_operandsText_append es rest
    rw [operandsText_cons, operandWords, List.cons_append, words_cons_space, List.append_assoc, he,
      hes, List.append_assoc]

end

/-- The words of the bracketed form are the words that it was put together from. -/
theorem words_toPrefix (e : Expr) : e.toPrefix.words = e.prefixWords := by
  have h := words_toPrefix_append e (Text.stopsAt_nil Text.isWord)
  rwa [List.append_nil, Text.words_of_isBlanks Text.isBlanks_nil, List.append_nil] at h

end Expr
end PrefixCalc
