import PrefixCalc.Proofs.Parse.Refusal

/-! # Layout does not matter

A refusal depends on the words of a text only: the same words in another layout are refused at
the same word, with an error that tells the same and points to the same lexeme. So two texts
with the same words have the same parse, up to the places of their lexemes. -/

namespace PrefixCalc
set_option autoImplicit false

namespace Text

/-- The place where the lexeme with this index starts, or the end of the text. -/
def startOf (t : Text) (k : Nat) : Nat := (t.lexemes[k]?.map Lexeme.start).getD t.length

theorem Reads.startOf_length {t : Text} {ls : List Lexeme} {l : Lexeme} (h : t.Reads ls l) :
    t.startOf ls.length = l.start := by
  rcases h.cases with ⟨ms, hall⟩ | ⟨hall, rfl⟩
  · simp [startOf, hall]
  · simp [startOf, hall, endLexeme]

end Text

/-- The error points to the lexeme with this index of its source: to its start, or behind it
where it is the opening bracket of an operation with too few operands. -/
def ParseError.PointsTo (err : ParseError) (k : Nat) : Prop :=
  match err.cause with
  | .wrongOperandsQty .. =>
    ∃ l, err.source.lexemes[k]? = some l ∧ l.text = ['('] ∧ err.position = l.stop + 1
  | _ => err.position = err.source.startOf k + 1

namespace Parse

theorem Frame.ReadFrom.relocate {f : Frame} {ms ms' : List Lexeme} (h : f.ReadFrom ms)
    (hms : texts ms' = texts ms) :
    ∃ opening operator ns, ms' = opening :: operator :: ns ∧
      Frame.ReadFrom ⟨opening, operator, f.op, f.operands⟩ ms' := by
  cases h with
  | @mk ns opening operator operands bound =>
    obtain ⟨opening', ms', rfl, hopening, hms⟩ := List.map_eq_cons_iff.1 hms
    obtain ⟨operator', ns', rfl, hoperator, hns⟩ := List.map_eq_cons_iff.1 hms
    refine ⟨opening', operator', ns', rfl, .mk ?_ ?_ ?_ bound⟩
    · exact hopening.trans opening
    · exact hoperator.trans operator
    · change DerivesAll f.operands (texts ns')
      rw [show texts ns' = texts ns from hns]
      exact operands

theorem StackReadFrom.relocate {stack : List Frame} {ls ls' : List Lexeme}
    (h : StackReadFrom stack ls) (hls : texts ls' = texts ls) :
    ∃ stack', StackReadFrom stack' ls' ∧ (stack' ≠ [] → stack ≠ []) := by
  induction h generalizing ls' with
  | nil =>
    obtain rfl := List.map_eq_nil_iff.1 hls
    exact ⟨[], .nil, id⟩
  | @cons f stack ls ms outer more inner ih =>
    rw [texts_append] at hls
    obtain ⟨ls', ms', rfl, hls, hms⟩ := List.map_eq_append_iff.1 hls
    obtain ⟨stack', houter, _⟩ := ih hls
    obtain ⟨opening, operator, _, _, hinner⟩ := inner.relocate hms
    have hmore : Frame.wantsMore ⟨opening, operator, f.op, f.operands⟩ = true := more
    exact ⟨_, .cons houter hmore hinner, fun _ => List.cons_ne_nil _ _⟩

/-- Open operations, and the operands of one inside them, are read from the same words elsewhere. -/
theorem StackReadFrom.relocate_inner {stack : List Frame} {f : Frame} {ls ls' ms : List Lexeme}
    (outer : StackReadFrom stack ls) (inner : f.ReadFrom ms) (h : texts ls' = texts (ls ++ ms)) :
    ∃ stack' opening operator ks ns, ls' = ks ++ opening :: operator :: ns ∧
      ks.length = ls.length ∧ StackReadFrom stack' ks ∧
      Frame.ReadFrom ⟨opening, operator, f.op, f.operands⟩ (opening :: operator :: ns) := by
  rw [texts_append] at h
  obtain ⟨ks, ms', rfl, hks, hms⟩ := List.map_eq_append_iff.1 h
  obtain ⟨stack', houter, _⟩ := outer.relocate hks
  obtain ⟨opening, operator, ns, rfl, hinner⟩ := inner.relocate hms
  have hlength : ks.length = ls.length := by
    simpa [texts] using congrArg List.length hks
  exact ⟨stack', opening, operator, ks, ns, rfl, hlength, houter, hinner⟩

theorem reads_relocate {t t' : Text} {ls : List Lexeme} {l : Lexeme} (h : t.Reads ls l)
    (hw : t.words = t'.words) :
    ∃ ls' l', t'.Reads ls' l' ∧ texts ls' = texts ls ∧ l'.text = l.text := by
  obtain ⟨ms, hall, rfl⟩ := h
  have hw' : texts t'.lexemes = texts ls ++ texts ms := by
    rw [← texts_append, ← hall]
    exact hw.symm
  obtain ⟨ls', ms', hall', hls, hms⟩ := List.map_eq_append_iff.1 hw'
  refine ⟨ls', ms'.headD t'.endLexeme, ⟨ms', hall', rfl⟩, hls, ?_⟩
  cases ms with
  | nil =>
    obtain rfl := List.map_eq_nil_iff.1 hms
    rfl
  | cons k ms =>
    obtain ⟨k', ms', rfl, hk, _⟩ := List.map_eq_cons_iff.1 hms
    exact hk

theorem getElem?_of_reads {t : Text} {ls ms : List Lexeme} {k l : Lexeme}
    (h : t.Reads (ls ++ k :: ms) l) : t.lexemes[ls.length]? = some k := by
  obtain ⟨rest, hall, _⟩ := h
  simp [hall]

/-- Two errors tell the same, of the lexemes with the same index. -/
def SameError (a b : ParseError) : Prop :=
  a.kind = b.kind ∧ a.payload = b.payload ∧ ∃ k, a.PointsTo k ∧ b.PointsTo k

theorem Refused.relocate {t t' : Text} {ls ls' : List Lexeme} {l l' : Lexeme}
    {cause : ParseError.Cause} (h : Refused ls l cause) (hr : t.Reads ls l)
    (hr' : t'.Reads ls' l') (hls : texts ls' = texts ls) (hl : l'.text = l.text) :
    ∃ cause', Refused ls' l' cause' ∧ SameError ⟨t, cause⟩ ⟨t', cause'⟩ := by
  have hlength : ls'.length = ls.length := by
    simpa [texts] using congrArg List.length hls
  have hplace : l.start + 1 = t.startOf ls.length + 1 := by rw [hr.startOf_length]
  have hplace' : l'.start + 1 = t'.startOf ls.length + 1 := by
    rw [← hlength, hr'.startOf_length]
  cases h with
  | @operationNotFound stack ls opening l outer bracket symbol =>
    rw [texts_append] at hls
    obtain ⟨ls', ms', rfl, houter, hinner⟩ := List.map_eq_append_iff.1 hls
    obtain ⟨opening', rfl, hopening⟩ := List.map_eq_singleton_iff.1 hinner
    obtain ⟨stack', hstack, _⟩ := outer.relocate houter
    refine ⟨_, .operationNotFound hstack (hopening.trans bracket) (by rwa [hl]), rfl, ?_, _,
      hplace, hplace'⟩
    simp only [ParseError.payload, hl]
  | wrongConst start number =>
    obtain rfl := List.map_eq_nil_iff.1 hls
    refine ⟨_, .wrongConst (by rwa [hl]) (by rwa [hl]), rfl, ?_, _, hplace, hplace'⟩
    simp only [ParseError.payload, hl]
  | unknownLexeme outer operand bracket name start =>
    obtain ⟨stack', hstack, hne⟩ := outer.relocate hls
    refine ⟨_, .unknownLexeme hstack (fun h => by rw [hl]; exact operand (hne h)) (by rwa [hl])
      (by rwa [hl]) (by rwa [hl]), rfl, ?_, _, hplace, hplace'⟩
    simp only [ParseError.payload, hl]
  | @wrongOperandsQty stack f ls ms l n outer inner bracket arity short =>
    obtain ⟨stack', opening, operator, ks, ns, rfl, hks, hstack, hframe⟩ :=
      outer.relocate_inner inner hls
    refine ⟨_, .wrongOperandsQty hstack hframe (hl.trans bracket) arity short, rfl, rfl,
      ls.length, ?_, ?_⟩
    · cases inner with
      | mk hopening => exact ⟨f.opening, getElem?_of_reads hr, hopening, rfl⟩
    · cases hframe with
      | mk hopening => exact ⟨opening, hks ▸ getElem?_of_reads hr', hopening, rfl⟩
  | @wrongBracketSequence stack f ls ms l outer inner operand bracket =>
    obtain ⟨stack', opening, operator, ks, ns, rfl, _, hstack, hframe⟩ :=
      outer.relocate_inner inner hls
    exact ⟨_, .wrongBracketSequence hstack hframe (fun h => by rw [hl]; exact operand h)
      (by rwa [hl]), rfl, rfl, _, hplace, hplace'⟩
  | wrongEnding complete more =>
    exact ⟨_, .wrongEnding (by rwa [hls]) (by rwa [hl]), rfl, rfl, _, hplace, hplace'⟩

end Parse

/-- Texts with the same words are parsed to the same expression, or fail with the same error at
the same lexeme. -/
theorem parse_depends_on_words {t u : Text} (ht : t ≠ []) (hu : u ≠ []) (h : t.words = u.words) :
    (∃ e, parse t = .ok e ∧ parse u = .ok e) ∨
      ∃ a b, parse t = .error a ∧ parse u = .error b ∧ a.kind = b.kind ∧
        a.payload = b.payload ∧ ∃ k, a.PointsTo k ∧ b.PointsTo k := by
  cases hp : parse t with
  | ok e =>
    refine .inl ⟨e, rfl, ?_⟩
    rw [parse_eq_ok_iff, ← h]
    exact parse_eq_ok_iff.1 hp
  | error err =>
    obtain ⟨source, cause⟩ := err
    obtain ⟨hsource, ls, l, hr, hrefused⟩ := Parse.refused_of_parse ht hp
    obtain rfl : source = t := hsource
    obtain ⟨ls', l', hr', hls, hl⟩ := Parse.reads_relocate hr h
    obtain ⟨cause', hrefused', hsame⟩ := hrefused.relocate hr hr' hls hl
    exact .inr ⟨_, _, rfl, Parse.parse_of_refused hu hr' hrefused', hsame⟩

/-- A list of operands that a bracket ends too early, with no blanks and with some. -/
theorem short_operands_in_two_layouts :
    let t : Text := "(+(negate)y)".toList
    let u : Text := " ( +	( negate )y) ".toList
    t ≠ [] ∧ u ≠ [] ∧ t.words = u.words ∧
      ((∃ e, parse t = .ok e ∧ parse u = .ok e) ∨
        ∃ a b, parse t = .error a ∧ parse u = .error b ∧ a.kind = b.kind ∧
          a.payload = b.payload ∧ ∃ k, a.PointsTo k ∧ b.PointsTo k) := by
  intro t u
  have ht : t ≠ [] := by decide
  have hu : u ≠ [] := by decide
  have h : t.words = u.words := by decide +kernel
  exact ⟨ht, hu, h, parse_depends_on_words ht hu h⟩

end PrefixCalc
