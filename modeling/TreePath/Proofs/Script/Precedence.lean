/-
# Precedence — what the parser makes of written expressions

A written expression has the fewest parentheses that its meaning allows (`Script/Printing`).  `parse_print`
says that it is read as itself, for every expression, with the spaces of its printed form or any other blanks
between its lexemes.

The lexemes of a written expression are a derivation of it at its level (`derives`), by induction on the
expression: an operand stands in parentheses exactly if it binds less tightly than its place asks for, so
`derives_enclose` has it at the level of its place either way.  The parser finds every derivation, and blanks
between lexemes mean nothing; neither is proved again here.
-/
import TreePath.Proofs.Script.Printing

namespace TreePath

namespace Script

namespace Written

def tokens (pieces : List Piece) : List Token :=
  (pieces.map Piece.lexeme).map Lexeme.token

theorem tokens_append (pieces more : List Piece) :
    tokens (pieces ++ more) = tokens pieces ++ tokens more := by
  rw [tokens, List.map_append, List.map_append]
  rfl

theorem one_le_level (e : Written) : 1 ≤ e.level := by
  cases e with
  | binary op left right =>
      rw [level, binaryLevel_eq]
      exact precedence_pos op
  | unary op operand => exact (by decide : 1 ≤ unaryLevel)
  | _ => exact (by decide : 1 ≤ postfixLevel)

theorem derives_enclose {level asked : Nat} {pieces : List Piece} {e : Expr}
    (h : Derives level (tokens pieces) e) (positive : 1 ≤ level) (low : asked ≤ postfixLevel) :
    Derives asked (tokens (enclose asked level pieces)) e := by
  unfold enclose
  split
  · have enclosed := (h.mono positive).enclosed.mono low
    rwa [← List.singleton_append, tokens_append, tokens_append]
  · rename_i tight
    exact h.mono (Nat.le_of_not_lt tight)

/-- The lexemes of a written expression are that expression, at its level. -/
theorem derives (e : Written) : Derives e.level (tokens e.pieces) e.raw := by
  induction e with
  | literal l =>
      cases l with
      | bool b => cases b <;> exact .literal _
      | undefined => exact .literal _
      | null => exact .literal _
      | number n => exact .literal _
      | string mark text => exact .literal _
  | value => exact .value
  | path => exact .path
  | member target name ih =>
      rw [pieces, tokens_append]
      exact (derives_enclose ih target.one_le_level (Nat.le_refl _)).member _
  | index target position ih ih' =>
      rw [pieces, tokens_append, ← List.singleton_append, tokens_append, tokens_append]
      exact (derives_enclose ih target.one_le_level (Nat.le_refl _)).index
        (ih'.mono position.one_le_level)
  | unary op operand ih =>
      have inner := derives_enclose ih operand.one_le_level (by decide : unaryLevel ≤ postfixLevel)
      have token : (Lexeme.ofUnary op).token = unaryToken op := by
        cases op <;> rfl
      rw [pieces, ← List.singleton_append, tokens_append]
      show Derives _ ((Lexeme.ofUnary op).token :: _) _
      rw [token]
      exact inner.unary op
  | binary op left right ih ih' =>
      have low : binaryLevel op + 1 ≤ postfixLevel := by
        rw [binaryLevel_eq]
        exact Nat.succ_le_succ (Nat.le_of_lt (precedence_lt_unaryLevel op))
      rw [pieces, tokens_append, ← List.singleton_append, tokens_append]
      exact (derives_enclose ih left.one_le_level (Nat.le_of_succ_le low)).binary op
        (derives_enclose ih' right.one_le_level low)

theorem ofTokens?_lexemes (e : Written) : ofTokens? (e.lexemes.map Lexeme.token) = some e.raw :=
  e.derives.ofTokens?

theorem spaced_text (pieces : List Piece) :
    Spaced (pieces.map Piece.lexeme) (pieces.flatMap Piece.text) := by
  induction pieces with
  | nil => exact .nil
  | cons piece pieces ih =>
      rw [List.map_cons, List.flatMap_cons, Piece.text]
      split
      · rw [List.cons_append, List.append_assoc]
        exact .gap rfl (.lexeme _ (.gap rfl ih))
      · exact .lexeme _ ih

/-- A written expression is read as itself, with the spaces of its printed form or any other
blanks between its lexemes. -/
theorem parse_print (e : Written) :
    parse e.print = .ok e.expr ∧
      ∀ text, Spaced e.lexemes text → parse (String.ofList text) = .ok e.expr := by
  have anySpacing : ∀ text, Spaced e.lexemes text → parse (String.ofList text) = .ok e.expr := by
    intro text spaced
    refine parse_eq_ok_iff.mpr ⟨e.lexemes, e.raw, ?_, e.ofTokens?_lexemes, e.unescapeExpr_raw⟩
    rwa [String.toList_ofList]
  exact ⟨anySpacing _ (spaced_text e.pieces), anySpacing⟩

/-- Repeated operators, the marks inside a string and a number before a name. -/
example :
    (Written.binary .sub (.unary .neg (.unary .neg .value))
      (.binary .sub (.literal (.string ⟨'"', rfl⟩ "a\"'\\"))
        (.member .path ⟨'e', ['1'], rfl, List.all_eq_true.mp rfl⟩))).print =
      "--@ - (\"a\\\"'\\\\\" - @path.e1)" := by
  rfl

end Written

end Script

end TreePath
