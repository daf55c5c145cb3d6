import PrefixCalc.Proofs.Lexeme.Concat
import PrefixCalc.Proofs.Parse.Refusal

/-! # Errors do not depend on what follows

The lexeme at which a parse is refused is known from the error and the text, and the refusal
depends on the lexemes up to this one only. So a text that agrees with another up to the end of
its offending lexeme, and does not make the lexeme longer, is refused with the same error. -/

namespace PrefixCalc
set_option autoImplicit false

namespace Text

/-- The lexeme goes no further in the text: it is a bracket, or the text ends with it, or a
blank or a bracket follows. -/
def EndsLexeme (f : Text) (l : Lexeme) : Prop :=
  l.text = ['('] ∨ l.text = [')'] ∨ l.stop = f.length ∨
    ∃ c, f[l.stop]? = some c ∧ (isBlank c = true ∨ isBracket c = true)

theorem parted_of_bracket (p s : Text) {w : Text} (h : w = ['('] ∨ w = [')']) :
    Parted (p ++ w) s := by
  left
  intro c hc
  rcases h with rfl | rfl
  all_goals
    rw [List.getLast?_append_of_ne_nil _ (List.cons_ne_nil _ _)] at hc
    cases Option.mem_def.1 hc
    decide

theorem EndsLexeme.parted {f p : Text} {l : Lexeme} (h : f.EndsLexeme l) :
    Parted (p ++ l.text) (f.drop l.stop) := by
  rcases h with h | h | h | ⟨c, hc, h⟩
  · exact parted_of_bracket p _ (.inl h)
  · exact parted_of_bracket p _ (.inr h)
  · right
    rw [h, List.drop_length]
    exact stopsAt_nil _
  · right
    intro a ha
    rw [List.head?_drop, hc] at ha
    cases Option.mem_def.1 ha
    rcases h with h | h
    · exact isWord_of_isBlank h
    · exact isWord_of_isBracket h

theorem exists_lexemes_of_take {t f : Text} {l : Lexeme} {ls ms : List Lexeme}
    (hall : t.lexemes = ls ++ l :: ms) (htake : f.take l.stop = t.take l.stop)
    (hend : f.EndsLexeme l) : ∃ ns, f.lexemes = ls ++ l :: ns := by
  have hmem : l ∈ (Remainder.ofText t).lexemes := by
    change l ∈ t.lexemes
    rw [hall]
    exact List.mem_append_right _ List.mem_cons_self
  obtain ⟨p, q, ht, hp, _⟩ := (Remainder.of_ofText t).exists_piece hmem
  have hpiece : t.take l.stop = p ++ l.text := by
    have hlen : (p ++ l.text).length = l.stop := by rw [List.length_append, hp, Lexeme.stop]
    rw [ht, ← List.append_assoc, ← hlen]
    exact List.take_left
  have hf : f = p ++ l.text ++ f.drop l.stop := by
    rw [← hpiece, ← htake, List.take_append_drop]
  have happend := Remainder.lexemes_append 0 (hend.parted (p := p))
  rw [← hf, ← hpiece] at happend
  refine ⟨Remainder.lexemes ⟨f.drop l.stop, 0 + (t.take l.stop).length⟩, ?_⟩
  calc f.lexemes = Text.lexemes (t.take l.stop) ++
        Remainder.lexemes ⟨f.drop l.stop, 0 + (t.take l.stop).length⟩ := happend
    _ = _ := by rw [lexemes_take_stop hall, List.append_assoc, List.singleton_append]

theorem start_lt_of_mem {t : Text} {l : Lexeme} (h : l ∈ t.lexemes) : l.start < t.length := by
  obtain ⟨p, q, rfl, hp, hl⟩ := (Remainder.of_ofText t).exists_piece h
  have := List.length_pos_iff.2 hl.ne_nil
  simp only [List.length_append]
  omega

/-- The lexeme that comes after others is known from its start. -/
theorem Reads.eq_of_start {t : Text} {ls : List Lexeme} {k l : Lexeme} (hr : t.Reads ls k)
    (hl : l ∈ t.lexemes) (hs : l.start = k.start) : l = k ∧ ∃ ms, t.lexemes = ls ++ l :: ms := by
  rcases hr.cases with ⟨ms, hall⟩ | ⟨_, rfl⟩
  · obtain ⟨ls', ms', hall'⟩ := List.append_of_mem hl
    obtain ⟨_, rfl, _⟩ := lexemes_inj_start hall' hall hs
    exact ⟨rfl, ms, hall⟩
  · have hlt := start_lt_of_mem hl
    rw [hs] at hlt
    exact absurd hlt (Nat.lt_irrefl _)

end Text

namespace ParseError

/-- The lexeme that an error is about: the one at its place, or the bracket that closed a list
of operands too early. -/
def Offends (err : ParseError) (l : Lexeme) : Prop :=
  match err.cause with
  | .wrongOperandsQty .. =>
    l.text = [')'] ∧ ∃ ls opening operator ms rest es,
      err.source.lexemes = ls ++ opening :: operator :: (ms ++ l :: rest) ∧
      opening.text = ['('] ∧ err.position = opening.stop + 1 ∧ DerivesAll es (Parse.texts ms)
  | _ => l ∈ err.source.lexemes ∧ err.position = l.start + 1

end ParseError

namespace Parse
variable {t : Text} {ls ms : List Lexeme} {k l : Lexeme} {cause : ParseError.Cause}

theorem Refused.offends (h : Refused ls l cause) (hall : t.lexemes = ls ++ l :: ms) :
    ParseError.Offends ⟨t, cause⟩ l := by
  have hmem : l ∈ t.lexemes := by
    rw [hall]
    exact List.mem_append_right _ List.mem_cons_self
  cases h with
  | @wrongOperandsQty stack f ls ns l n outer inner bracket =>
    cases inner with
    | @mk ns opening operator operands =>
      refine ⟨bracket, ls, f.opening, f.operator, ns, ms, f.operands, ?_, opening, rfl, operands⟩
      rw [hall]
      simp
  | _ => exact ⟨hmem, rfl⟩

/-- The bracket after the operands of an operation is known from its opening bracket. -/
theorem eq_of_operands {ls' ms ms' rest rest' : List Lexeme} {opening opening' operator operator' :
    Lexeme} {es es' : List Expr}
    (hall : t.lexemes = ls ++ opening :: operator :: (ms ++ k :: rest))
    (hall' : t.lexemes = ls' ++ opening' :: operator' :: (ms' ++ l :: rest'))
    (hs : opening.start = opening'.start) (hk : k.text = [')']) (hl : l.text = [')'])
    (hes : DerivesAll es (texts ms)) (hes' : DerivesAll es' (texts ms')) :
    k = l := by
  obtain ⟨_, _, htail⟩ := Text.lexemes_inj_start hall hall' hs
  obtain ⟨_, htail⟩ := List.cons.inj htail
  have htexts := congrArg texts htail
  simp only [texts_append, texts_cons, hk, hl] at htexts
  obtain ⟨_, hrest⟩ := hes.unique hes' htexts
  have hlen : rest.length = rest'.length := by
    simpa [texts] using congrArg List.length hrest
  obtain ⟨_, hcons⟩ := List.append_inj' htail (by simp [hlen])
  exact (List.cons.inj hcons).1

theorem Refused.eq_of_offends (h : Refused ls k cause) (hr : t.Reads ls k)
    (hl : ParseError.Offends ⟨t, cause⟩ l) : l = k ∧ ∃ ms, t.lexemes = ls ++ l :: ms := by
  cases h with
  | @wrongOperandsQty stack f ls ns k n outer inner bracket =>
    rcases hr.cases with ⟨rest, hall⟩ | ⟨_, rfl⟩
    · obtain ⟨hclosing, ls', opening', operator', ms', rest', es, hall', hopening, hpos, hes⟩ := hl
      cases inner with
      | @mk ns opening operator operands =>
        have hall'' : t.lexemes = ls ++ f.opening :: f.operator :: (ns ++ k :: rest) := by
          rw [hall]
          simp
        have hstart : f.opening.start = opening'.start := by
          change f.opening.stop + 1 = opening'.stop + 1 at hpos
          simp only [Lexeme.stop, opening, hopening] at hpos
          omega
        have hkl := eq_of_operands hall'' hall' hstart bracket hclosing operands hes
        subst hkl
        exact ⟨rfl, rest, hall⟩
    · cases bracket
  -- every other error points to the refused lexeme
  | _ => exact hr.eq_of_start hl.1 (Nat.succ.inj hl.2).symm

/-- The refusal of a text at one of its lexemes is the refusal of every text that is the same up
to the end of this lexeme. -/
theorem Refused.parse_of_take {f : Text} (h : Refused ls l cause) (hall : t.lexemes = ls ++ l :: ms)
    (htake : f.take l.stop = t.take l.stop) (hend : f.EndsLexeme l) :
    parse f = .error ⟨f, cause⟩ := by
  obtain ⟨ns, hf⟩ := Text.exists_lexemes_of_take hall htake hend
  refine parse_of_refused ?_ (Text.reads_of_lexemes hf) h
  rintro rfl
  rw [Text.lexemes_nil] at hf
  simp at hf

end Parse

/-- An error that is not at the end of its text has an offending lexeme, and every text that is
the same up to the end of this lexeme fails with the same error. -/
theorem error_independent_of_rest {t : Text} {err : ParseError} (h : parse t = .error err) :
    ((∃ l, err.Offends l) ∨ err.position = t.length + 1) ∧
    ∀ (l : Lexeme) (f : Text), err.Offends l → f.take l.stop = t.take l.stop → f.EndsLexeme l →
      ∃ err', parse f = .error err' ∧ err'.kind = err.kind ∧ err'.position = err.position ∧
        err'.payload = err.payload ∧
        (err.kind ≠ .wrongEnding → err'.length = err.length) ∧
        (err.kind = .wrongEnding → (err'.position : Int) - 1 + err'.length = f.length) := by
  by_cases ht : t = []
  · subst ht
    rw [Parse.parse_nil] at h
    cases h
    refine ⟨.inr rfl, ?_⟩
    intro l f hl
    have hmem : l ∈ Text.lexemes [] := hl.1
    rw [Text.lexemes_nil] at hmem
    cases hmem
  obtain ⟨source, cause⟩ := err
  obtain ⟨hsource, ls, k, hr, hrefused⟩ := Parse.refused_of_parse ht h
  obtain rfl : source = t := hsource
  refine ⟨?_, ?_⟩
  · rcases hr.cases with ⟨ms, hall⟩ | ⟨_, rfl⟩
    · exact .inl ⟨k, hrefused.offends hall⟩
    · right
      cases hrefused with
      | wrongOperandsQty _ _ bracket => cases bracket
      | _ => rfl
  · intro l f hl htake hend
    obtain ⟨rfl, ms, hall⟩ := hrefused.eq_of_offends hr hl
    refine ⟨⟨f, cause⟩, hrefused.parse_of_take hall htake hend, rfl, rfl, rfl, ?_, ?_⟩
    · intro hk
      cases hrefused with
      | wrongEnding => exact absurd rfl hk
      | _ => rfl
    · intro hk
      cases hrefused with
      | wrongEnding =>
        simp only [ParseError.length, ParseError.position, ParseError.start, ParseError.stop]
        omega
      | _ => cases hk

/-- A list of operands that a bracket ends too early, with other texts after the bracket. -/
theorem short_operands_independent_of_rest :
    parse "(+ (negate) y".toList =
      .error ⟨"(+ (negate) y".toList, .wrongOperandsQty "negate".toList 1 0 4 10⟩ ∧
    ∃ err', parse "(+ (negate)$(".toList = .error err' ∧ err'.kind = .wrongOperandsQty ∧
      err'.position = 5 ∧ err'.payload = ⟨none, some "negate".toList, some 1, some 0⟩ ∧
      (ErrorKind.wrongOperandsQty ≠ .wrongEnding → err'.length = 6) ∧
      (ErrorKind.wrongOperandsQty = .wrongEnding →
        (err'.position : Int) - 1 + err'.length = 13) := by
  have h : parse "(+ (negate) y".toList =
      .error ⟨"(+ (negate) y".toList, .wrongOperandsQty "negate".toList 1 0 4 10⟩ := by
    have hs := Parse.State.Steps.cons (s := Parse.State.start "(+ (negate) y".toList) rfl
      (.cons rfl (.cons rfl (.cons rfl (.refl _))))
    apply Parse.parse_of_stop (by decide) hs
    rfl
  have hall : Text.lexemes "(+ (negate) y".toList =
      [⟨['('], 0⟩, ⟨['+'], 1⟩] ++ ⟨['('], 3⟩ :: ⟨"negate".toList, 4⟩ ::
        ([] ++ ⟨[')'], 10⟩ :: [⟨['y'], 12⟩]) := by
    decide +kernel
  have htake : "(+ (negate)$(".toList.take 11 = "(+ (negate) y".toList.take 11 := by decide
  exact ⟨h, (error_independent_of_rest h).2 ⟨[')'], 10⟩ _
    ⟨rfl, _, _, _, _, _, _, hall, rfl, rfl, .nil⟩ htake (.inr (.inl rfl))⟩

end PrefixCalc
