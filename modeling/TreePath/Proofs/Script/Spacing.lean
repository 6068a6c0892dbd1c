/-
# Spacing — texts that are rows of lexemes with blanks between them

Cutting lexemes off a text shows that it is such a row (`exists_spaced`).  Conversely, a row is cut into just
its lexemes, whatever blanks there are, as long as the parser takes them one after the other
(`Spaced.tokens?`).  So blanks mean nothing.

The condition on the parser is needed: `a b` and `ab` have different lexemes.  But of two lexemes that the
parser takes one after the other, one completes an operand or the next begins one, never both
(`isSome_operand_of_step`, `beginsOperand_of_begin`).  A lexeme that completes an operand can be made longer
by a character of a name, and nothing that may follow an operand begins with one.  An operator can be made
longer by an equals sign, and no operand begins with that.
-/
import TreePath.Proofs.Script.Lexemes
import TreePath.Script.Parse

namespace TreePath

namespace Script

/-! ## Texts of lexemes -/

structure Lexeme where
  token : Token
  text : List Char
  spells : Spells token text

/-- The lexemes one after the other, with blanks anywhere between. -/
inductive Spaced : List Lexeme → List Char → Prop
  | nil : Spaced [] []
  | gap {c : Char} {lexemes : List Lexeme} {text : List Char} : isGap c = true →
      Spaced lexemes text → Spaced lexemes (c :: text)
  | lexeme (l : Lexeme) {lexemes : List Lexeme} {text : List Char} :
      Spaced lexemes text → Spaced (l :: lexemes) (l.text ++ text)

theorem exists_spaced {text : List Char} {tokens : List Token} (h : tokens? text = some tokens) :
    ∃ lexemes : List Lexeme, lexemes.map Lexeme.token = tokens ∧ Spaced lexemes text := by
  fun_induction tokens? text generalizing tokens with
  | case1 =>
      cases h
      exact ⟨[], rfl, .nil⟩
  | case2 c rest gap ih =>
      obtain ⟨lexemes, map, spaced⟩ := ih h
      exact ⟨lexemes, map, .gap gap spaced⟩
  | case3 => cases h
  | case4 c rest _ token after taken ih =>
      rw [Option.map_eq_some_iff] at h
      obtain ⟨others, cut, rfl⟩ := h
      obtain ⟨lexemes, rfl, spaced⟩ := ih cut
      obtain ⟨text, eq, spells⟩ := exists_spells taken
      rw [eq]
      exact ⟨⟨token, text, spells⟩ :: lexemes, rfl, .lexeme ⟨token, text, spells⟩ spaced⟩

/-! ## What may stand after a lexeme -/

/-- Whether a lexeme may stand where an operand is due. -/
def Token.beginsOperand : Token → Bool
  | .literal _ => true
  | .value => true
  | .path => true
  | .bang => true
  | .operator op => op = .sub
  | .openParen => true
  | _ => false

theorem beginsOperand_of_begin {pending : List Pending} {token : Token} {s : Parse}
    (h : Parse.begin pending token = some s) : token.beginsOperand = true := by
  unfold Parse.begin at h
  split at h <;> first | rfl | cases h

/-- Taking a lexeme leaves an operand exactly if the lexeme completes one. -/
theorem isSome_operand_of_step {s s' : Parse} {token : Token} (h : s.step token = some s') :
    s'.operand.isSome = token.endsOperand := by
  unfold Parse.step at h
  split at h
  · unfold Parse.begin at h
    split at h <;> cases h <;> rfl
  · unfold Parse.continue at h
    split at h
    · cases h
      rfl
    · cases h
      rfl
    · cases h
      rfl
    · split at h <;> cases h
      rfl
    · split at h <;> cases h
      rfl
    · cases h

theorem symbols_begin : ∀ entry ∈ symbols,
    entry.2.beginsOperand = true → entry.1.head? ≠ some '=' := by
  decide

theorem Spells.head_ne_equals {token : Token} {text : List Char} (spells : Spells token text)
    (begins : token.beginsOperand = true) (after : List Char) :
    (text ++ after).head? ≠ some '=' := by
  obtain ⟨c, rest, eq, ne⟩ : ∃ c rest, text = c :: rest ∧ c ≠ '=' := by
    cases spells with
    | value => exact ⟨_, _, rfl, by decide⟩
    | path => exact ⟨_, _, rfl, by decide⟩
    | member name => exact ⟨_, _, rfl, by decide⟩
    | number n =>
        obtain ⟨c, others, eq, digit⟩ := n.whole.exists_cons
        refine ⟨c, _, by rw [NumberText.text, eq]; rfl, ?_⟩
        rintro rfl
        cases digit
    | string mark _ =>
        refine ⟨_, _, rfl, ?_⟩
        rintro rfl
        cases mark
    | keyword mem =>
        obtain ⟨c, others, eq, start⟩ := exists_cons_of_head (keywords_head _ mem)
        refine ⟨c, others, eq, ?_⟩
        rintro rfl
        cases start
    | symbol mem =>
        obtain ⟨c, others, eq, -⟩ := exists_cons_of_head (symbols_head _ mem)
        refine ⟨c, others, eq, ?_⟩
        rintro rfl
        exact symbols_begin _ mem begins (by rw [eq]; rfl)
  rw [eq]
  rintro ⟨⟩
  exact ne rfl

/-- No lexeme that may follow an operand goes on a name or a number. -/
theorem Spells.endsNumber {pending : List Pending} {e : Expr} {s : Parse} {token : Token}
    {text : List Char} (spells : Spells token text)
    (continues : Parse.continue pending e token = some s) (after : List Char) :
    EndsNumber (text ++ after) := by
  cases spells with
  | value => cases continues
  | path => cases continues
  | member name =>
      refine ⟨rfl, ?_⟩
      rintro _ ⟨⟩
      exact not_isDigit_of_isNameStart name.isStart
  | number n => cases continues
  | string _ _ => cases continues
  | keyword _ => cases continues
  | symbol mem =>
      obtain ⟨c, others, rfl, head⟩ := exists_cons_of_head (symbols_head _ mem)
      simp only [isSymbolHead, Bool.and_eq_true, Bool.not_eq_true', decide_eq_true_eq] at head
      refine ⟨head.1.1.1.1.1, ?_⟩
      rintro _ ⟨⟩
      exact absurd rfl head.1.1.1.2

theorem allows_nil (token : Token) : token.Allows [] := by
  rw [Token.Allows]
  split
  · exact ⟨stops_nil _, fun _ eq => absurd eq (List.cons_ne_nil _ _).symm⟩
  · exact (Option.some_ne_none '=').symm

theorem allows_gap (token : Token) {c : Char} (gap : isGap c = true) (text : List Char) :
    token.Allows (c :: text) := by
  have ne : ∀ d, isGap d = false → c ≠ d := by
    rintro d notGap rfl
    rw [gap] at notGap
    cases notGap
  rw [Token.Allows]
  split
  · refine ⟨?_, fun _ eq => absurd (List.head_eq_of_cons_eq eq) (ne '.' rfl)⟩
    rw [stops_cons, Bool.eq_false_iff]
    intro name
    rw [not_isGap_of_isNameChar name] at gap
    cases gap
  · exact fun eq => ne '=' rfl (Option.some.inj eq)

theorem Spaced.allows {lexemes : List Lexeme} {text : List Char} (spaced : Spaced lexemes text)
    {token : Token} {s s' last : Parse} (step : s.step token = some s')
    (run : (lexemes.map Lexeme.token).foldlM Parse.step s' = some last) : token.Allows text := by
  cases spaced with
  | nil => exact allows_nil token
  | gap gap _ => exact allows_gap token gap _
  | lexeme l _ =>
      rw [List.map_cons, List.foldlM_cons, Option.bind_eq_bind, Option.bind_eq_some_iff] at run
      obtain ⟨s'', next, -⟩ := run
      have ends := isSome_operand_of_step step
      unfold Parse.step at next
      rw [Token.Allows, ← ends]
      cases operand : s'.operand with
      | none =>
          rw [operand] at next
          exact l.spells.head_ne_equals (beginsOperand_of_begin next) _
      | some e =>
          rw [operand] at next
          exact l.spells.endsNumber next _

/-! ## A row of lexemes is cut into its lexemes -/

theorem tokens?_gap {c : Char} (gap : isGap c = true) (rest : List Char) :
    tokens? (c :: rest) = tokens? rest := by
  rw [tokens?, if_pos gap]

theorem tokens?_token {c : Char} {rest after : List Char} {token : Token} (gap : isGap c = false)
    (taken : takeToken? c rest = some (token, after)) :
    tokens? (c :: rest) = (tokens? after).map (token :: ·) := by
  rw [tokens?, gap, if_neg Bool.false_ne_true]
  split
  · rename_i none
    rw [taken] at none
    cases none
  · rename_i same
    rw [taken] at same
    cases same
    rfl

/-- Lexemes that the parser takes one after the other are cut off, whatever blanks are between. -/
theorem Spaced.tokens? {lexemes : List Lexeme} {text : List Char} (spaced : Spaced lexemes text)
    {s last : Parse} (run : (lexemes.map Lexeme.token).foldlM Parse.step s = some last) :
    tokens? text = some (lexemes.map Lexeme.token) := by
  induction spaced generalizing s with
  | nil => rw [Script.tokens?]; rfl
  | gap gap _ ih => rw [tokens?_gap gap, ih run]
  | lexeme l spaced ih =>
      rw [List.map_cons, List.foldlM_cons, Option.bind_eq_bind, Option.bind_eq_some_iff] at run
      obtain ⟨s', step, run⟩ := run
      obtain ⟨c, rest, eq, notGap, taken⟩ := l.spells.takeToken? (spaced.allows step run)
      rw [eq, tokens?_token notGap taken, ih run]
      rfl

theorem parse_eq_ok_iff {source : String} {e : Expr} :
    parse source = .ok e ↔ ∃ lexemes raw, Spaced lexemes source.toList ∧
      ofTokens? (lexemes.map Lexeme.token) = some raw ∧ unescapeExpr raw = .ok e := by
  unfold parse
  constructor
  · intro h
    split at h
    · cases h
    · rename_i raw denotes
      rw [Option.bind_eq_some_iff] at denotes
      obtain ⟨tokens, cut, denotes⟩ := denotes
      obtain ⟨lexemes, rfl, spaced⟩ := exists_spaced cut
      exact ⟨lexemes, raw, spaced, denotes, h⟩
  · rintro ⟨lexemes, raw, spaced, denotes, decoded⟩
    have run := denotes
    rw [ofTokens?, Option.bind_eq_some_iff] at run
    obtain ⟨last, run, -⟩ := run
    rw [spaced.tokens? run, Option.bind_some, denotes]
    exact decoded

end Script

end TreePath
