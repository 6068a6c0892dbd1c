/-
# Nesting — brackets in scripts

The parser of scripts has open just the brackets and parentheses that are open in the text it has taken: each
lexeme opens one, or closes the innermost, or leaves them as they are, and what is between the marks of a
string does not count.  So the text of a script is balanced (`Spaced.balanced`).

The invariant is in `unclosed_step`.  The closers that the stack of the parser waits for (`closersOf`) are
those that are due in the text; operators on the stack wait for none, so closing them changes nothing.

A spelling is a bracket, or a string, or it neither quotes nor nests (`Spells.shape`).  This is the only
place where the characters of lexemes are looked at.
-/
import TreePath.Proofs.Path.Quotation
import TreePath.Proofs.Script.Spacing

namespace TreePath

namespace Script

open Quote (Balanced Unclosed isPlain)

/-! ## Lexemes and their characters -/

def isInk (c : Char) : Bool :=
  isPlain c && !Text.isBlank c

theorem isInk_of_isNameChar {c : Char} (h : isNameChar c = true) : isInk c = true := by
  have visible : 32 < c.toNat ∧ c.toNat < 133 := by
    simp only [isNameChar, Char.isAlphanum, Bool.or_eq_true, decide_eq_true_eq,
      Text.isAlpha_iff, Text.isDigit_iff] at h
    rcases h with (h | rfl) | rfl
    · omega
    · decide
    · decide
  have ne : ∀ d : Char, isNameChar d = false → c ≠ d := by
    rintro d h' rfl
    rw [h] at h'
    cases h'
  simp [isInk, isPlain, Quote.isMark, Text.isBlank_of_visible visible.1 visible.2, ne '\'' rfl,
    ne '"' rfl, ne '[' rfl, ne ']' rfl, ne '(' rfl, ne ')' rfl]

theorem NumberText.isInk (n : NumberText) : ∀ c ∈ n.text, isInk c = true := by
  have digits : ∀ (run : DigitRun), ∀ c ∈ run.text, Script.isInk c = true := by
    intro run c mem
    exact isInk_of_isNameChar (isNameChar_iff.mpr (.inr (run.digits c mem)))
  intro c mem
  rw [text, List.mem_append, List.mem_append] at mem
  rcases mem with mem | mem | mem
  · exact digits n.whole c mem
  · cases fraction : n.fraction with
    | none =>
        rw [fraction] at mem
        cases mem
    | some run =>
        rw [fraction, fractionText, List.mem_cons] at mem
        rcases mem with rfl | mem
        · decide
        · exact digits run c mem
  · cases exponent : n.exponent with
    | none =>
        rw [exponent] at mem
        cases mem
    | some e =>
        rw [exponent, exponentText, List.mem_cons, List.mem_append] at mem
        rcases mem with rfl | mem | mem
        · rcases e.isLetter with letter | letter
          · rw [letter]
            decide
          · rw [letter]
            decide
        · rcases e.isSign with sign | sign | sign
          · rw [sign] at mem
            cases mem
          · rw [sign, List.mem_singleton] at mem
            rw [mem]
            decide
          · rw [sign, List.mem_singleton] at mem
            rw [mem]
            decide
        · exact digits e.power c mem

/-- The bracket or parenthesis that a lexeme is. -/
def Token.bracket? : Token → Option Char
  | .openParen => some '('
  | .closeParen => some ')'
  | .openBracket => some '['
  | .closeBracket => some ']'
  | _ => none

theorem symbols_bracket : ∀ entry ∈ symbols,
    entry.2.bracket?.all (fun c => entry.1 = [c] && !Text.isBlank c) = true ∧
      (entry.2.bracket? = none → entry.1.all isInk = true) := by
  decide

/-- A lexeme is a bracket, or it is a string, or it neither quotes nor nests. -/
theorem Spells.shape {token : Token} {text : List Char} (spells : Spells token text) :
    (∃ c, token.bracket? = some c ∧ text = [c] ∧ Text.isBlank c = false) ∨
      token.bracket? = none ∧
        ((∃ mark body, Quote.isMark mark = true ∧ Quote.Inside mark body ∧
          text = mark :: (body ++ [mark])) ∨ ∀ c ∈ text, isInk c = true) := by
  cases spells with
  | value => exact .inr ⟨rfl, .inr (List.all_eq_true.mp rfl)⟩
  | path => exact .inr ⟨rfl, .inr (List.all_eq_true.mp rfl)⟩
  | member name =>
      refine .inr ⟨rfl, .inr ?_⟩
      intro c mem
      rcases List.mem_cons.mp mem with rfl | mem
      · decide
      · exact isInk_of_isNameChar (name.all_isNameChar c mem)
  | number n => exact .inr ⟨rfl, .inr n.isInk⟩
  | string mark inside => exact .inr ⟨rfl, .inl ⟨_, _, mark, inside, rfl⟩⟩
  | keyword mem =>
      have names := List.all_eq_true.mp (keywords_all _ mem)
      exact .inr ⟨rfl, .inr fun c mem => isInk_of_isNameChar (names c mem)⟩
  | symbol mem =>
      obtain ⟨bracket, other⟩ := symbols_bracket _ mem
      cases found : token.bracket? with
      | none => exact .inr ⟨rfl, .inr (List.all_eq_true.mp (other found))⟩
      | some c =>
          rw [found, Option.all_some, Bool.and_eq_true, decide_eq_true_eq,
            Bool.not_eq_true'] at bracket
          exact .inl ⟨c, rfl, bracket⟩

theorem Spells.trimmed {token : Token} {text : List Char} (spells : Spells token text) :
    Text.Trimmed text := by
  rcases spells.shape with ⟨c, -, rfl, visible⟩ | ⟨-, ⟨mark, body, isMark, -, rfl⟩ | ink⟩
  · refine Text.trimmed_of_forall ?_
    intro d mem
    rwa [List.mem_singleton.mp mem]
  · exact Quote.trimmed_quoted isMark body
  · refine Text.trimmed_of_forall ?_
    intro c mem
    have := ink c mem
    rw [isInk, Bool.and_eq_true, Bool.not_eq_true'] at this
    exact this.2

theorem Spells.balanced {token : Token} {text : List Char} (spells : Spells token text)
    (other : token.bracket? = none) : Balanced text := by
  rcases spells.shape with ⟨c, bracket, -⟩ | ⟨-, ⟨mark, body, isMark, inside, rfl⟩ | ink⟩
  · rw [bracket] at other
    cases other
  · exact Quote.balanced_quoted isMark inside
  · refine Quote.balanced_of_plain ?_
    intro c mem
    have := ink c mem
    rw [isInk, Bool.and_eq_true] at this
    exact this.1

theorem Spells.bracket {token : Token} {text : List Char} (spells : Spells token text) {c : Char}
    (bracket : token.bracket? = some c) : text = [c] := by
  rcases spells.shape with ⟨d, found, rfl, -⟩ | ⟨other, -⟩
  · rw [bracket] at found
    rw [Option.some.inj found]
  · rw [bracket] at other
    cases other

theorem Spells.ne_nil {token : Token} {text : List Char} (spells : Spells token text) :
    text ≠ [] := by
  obtain ⟨c, rest, eq, -⟩ := spells.takeToken? (allows_nil token)
  rw [List.append_nil] at eq
  rw [eq]
  exact List.cons_ne_nil c rest

/-! ## What is open -/

/-- The closer that a construct waits for. -/
def Pending.closer? : Pending → Option Char
  | .paren => some ')'
  | .subscript _ => some ']'
  | .unary _ => none
  | .binary _ _ => none

/-- The closers that are due, innermost first. -/
def closersOf (pending : List Pending) : List Char :=
  pending.filterMap Pending.closer?

theorem closersOf_close (precedence : Nat) (e : Expr) (pending : List Pending) :
    closersOf (close precedence e pending).2 = closersOf pending := by
  fun_induction close precedence e pending with
  | case1 e op rest ih => exact ih
  | case2 e left op rest le ih => exact ih
  | case3 => rfl
  | case4 => rfl

/-- The parser has open what is open in the text. -/
theorem unclosed_step {s s' : Parse} {token : Token} {before text : List Char}
    (h : Unclosed (closersOf s.pending) before) (spells : Spells token text)
    (step : s.step token = some s') : Unclosed (closersOf s'.pending) (before ++ text) := by
  obtain ⟨pending, operand⟩ := s
  cases operand with
  | none =>
      change Parse.begin pending token = some s' at step
      unfold Parse.begin at step
      split at step <;> cases step
      · exact h.append (spells.balanced rfl)
      · exact h.append (spells.balanced rfl)
      · exact h.append (spells.balanced rfl)
      · exact h.append (spells.balanced rfl)
      · exact h.append (spells.balanced rfl)
      · rw [spells.bracket rfl]
        exact h.opening .parenthesis
  | some e =>
      change Parse.continue pending e token = some s' at step
      unfold Parse.continue at step
      split at step
      · cases step
        exact h.append (spells.balanced rfl)
      · cases step
        rw [spells.bracket rfl]
        exact h.opening .bracket
      · rename_i op
        cases step
        have closed := closersOf_close op.precedence e pending
        have same := h.append (spells.balanced rfl)
        rw [← closed] at same
        exact same
      · have closed := closersOf_close 0 e pending
        split at step <;> cases step
        rename_i close
        rw [close] at closed
        rw [← closed] at h
        rw [spells.bracket rfl]
        exact h.closing
      · have closed := closersOf_close 0 e pending
        split at step <;> cases step
        rename_i close
        rw [close] at closed
        rw [← closed] at h
        rw [spells.bracket rfl]
        exact h.closing
      · cases step

theorem balanced_of_isGap {c : Char} (gap : isGap c = true) : Balanced [c] := by
  refine .plain ?_ .nil
  rcases isGap_iff.mp gap with rfl | rfl | rfl | rfl <;> rfl

theorem Spaced.unclosed {lexemes : List Lexeme} {text : List Char} (spaced : Spaced lexemes text)
    {s last : Parse} (run : (lexemes.map Lexeme.token).foldlM Parse.step s = some last)
    {before : List Char} (h : Unclosed (closersOf s.pending) before) :
    Unclosed (closersOf last.pending) (before ++ text) := by
  induction spaced generalizing s before with
  | nil =>
      cases run
      rwa [List.append_nil]
  | gap gap _ ih =>
      rw [← List.singleton_append, ← List.append_assoc]
      exact ih run (h.append (balanced_of_isGap gap))
  | lexeme l _ ih =>
      rw [List.map_cons, List.foldlM_cons, Option.bind_eq_bind, Option.bind_eq_some_iff] at run
      obtain ⟨s', step, run⟩ := run
      rw [← List.append_assoc]
      exact ih run (unclosed_step h l.spells step)

theorem Spaced.balanced {lexemes : List Lexeme} {text : List Char} (spaced : Spaced lexemes text)
    {raw : Expr} (denotes : ofTokens? (lexemes.map Lexeme.token) = some raw) : Balanced text := by
  rw [ofTokens?, Option.bind_eq_some_iff] at denotes
  obtain ⟨last, run, finish⟩ := denotes
  have unclosed := spaced.unclosed run (.balanced .nil)
  have closed : closersOf last.pending = [] := by
    unfold Parse.finish at finish
    split at finish
    · cases finish
    · rename_i e operand
      rw [← closersOf_close 0 e last.pending]
      split at finish
      · rename_i eq
        rw [eq]
        rfl
      · cases finish
  rw [closed, List.nil_append] at unclosed
  cases unclosed with
  | balanced balanced => exact balanced

end Script

end TreePath
