/-
# Levels — scripts read level by level

The grammar of scripts is given as eight rules, one for each level:

    or             = and (op-or and)*
    and            = equality (op-and equality)*
    equality       = relational (op-equality relational)*
    relational     = additive (op-relational additive)*
    additive       = multiplicative (op-additive multiplicative)*
    multiplicative = unary (op-multiplicative unary)*
    unary          = op-unary* postfix
    postfix        = primary (member | "[" or "]")*

A primary expression is a literal, a binding or a whole expression in parentheses.  The rules are read from
left to right.  A repetition takes as much as it can, one that fails ends before the part that failed, and
what has been taken is never given back.

`readLevel?` is this reading, a function for each kind of rule.  The six rules with operators between
operands are one function of the level.  Every reading leaves lexemes that are fewer than it was given, so
that the rules, which call each other in circles, come to an end.

## The comparison

`ofTokens?_eq_readExpr?` says that the reading and the parser agree on all sequences of lexemes, those that
are no expressions included.  Both are compared with the derivations of the grammar:

* what is read was derived (`Sound`), one case for each function;
* what is derived is read, and what follows is left if it cannot go on there (`Derives.reads`).  A
  derivation at a level begins with another at the same level, and the reading does not know yet where it
  ends: so the lemma says that the reading comes past what is derived and goes on from there (`goOn`).
-/
import TreePath.Proofs.Script.Derivations

namespace TreePath

namespace Script

/-! ## The reading -/

mutual

/-- An expression at a level, and what follows it. -/
def readLevel? (level : Nat) (tokens : List Token) :
    Option (Expr × { rest : List Token // rest.length < tokens.length }) :=
  if level < unaryLevel then
    match readLevel? (level + 1) tokens with
    | some (first, rest) =>
      let (e, last) := readOperators level first rest.val
      some (e, ⟨last.val, Nat.lt_of_le_of_lt last.property rest.property⟩)
    | none => none
  else if level = unaryLevel then readUnary? tokens
  else readPostfix? tokens
termination_by (tokens.length, 3 + (unaryLevel - level))

/-- The operators of a level that follow the operand `left`, with their right operands. -/
def readOperators (level : Nat) (left : Expr) (tokens : List Token) :
    Expr × { rest : List Token // rest.length ≤ tokens.length } :=
  match tokens with
  | .operator op :: rest =>
    if binaryLevel op = level then
      match readLevel? (level + 1) rest with
      | some (right, rest') =>
        have := rest'.property
        let (e, last) := readOperators level (.binary op left right) rest'.val
        (e, ⟨last.val, Nat.le_trans last.property (Nat.le_succ_of_le (Nat.le_of_lt this))⟩)
      | none => (left, ⟨_, Nat.le_refl _⟩)
    else (left, ⟨_, Nat.le_refl _⟩)
  | _ => (left, ⟨_, Nat.le_refl _⟩)
termination_by (tokens.length, 0)

def readUnary? (tokens : List Token) :
    Option (Expr × { rest : List Token // rest.length < tokens.length }) :=
  match tokens with
  | .bang :: rest =>
    (readUnary? rest).map fun (e, last) => (.unary .not e, ⟨last.val, Nat.lt_succ_of_lt last.property⟩)
  | .operator .sub :: rest =>
    (readUnary? rest).map fun (e, last) => (.unary .neg e, ⟨last.val, Nat.lt_succ_of_lt last.property⟩)
  | tokens => readPostfix? tokens
termination_by (tokens.length, 2)

def readPostfix? (tokens : List Token) :
    Option (Expr × { rest : List Token // rest.length < tokens.length }) :=
  match readPrimary? tokens with
  | some (first, rest) =>
    have := rest.property
    let (e, last) := readAccessors first rest.val
    some (e, ⟨last.val, Nat.lt_of_le_of_lt last.property this⟩)
  | none => none
termination_by (tokens.length, 1)

/-- The members and subscripts that follow `target`. -/
def readAccessors (target : Expr) (tokens : List Token) :
    Expr × { rest : List Token // rest.length ≤ tokens.length } :=
  match tokens with
  | .member name :: rest =>
    let (e, last) := readAccessors (.member target name) rest
    (e, ⟨last.val, Nat.le_succ_of_le last.property⟩)
  | .openBracket :: rest =>
    match readLevel? 1 rest with
    | some (position, ⟨.closeBracket :: rest', shorter⟩) =>
      have := Nat.lt_of_succ_lt shorter
      let (e, last) := readAccessors (.index target position) rest'
      (e, ⟨last.val, Nat.le_trans last.property (Nat.le_succ_of_le (Nat.le_of_lt this))⟩)
    | _ => (target, ⟨_, Nat.le_refl _⟩)
  | _ => (target, ⟨_, Nat.le_refl _⟩)
termination_by (tokens.length, 0)

def readPrimary? (tokens : List Token) :
    Option (Expr × { rest : List Token // rest.length < tokens.length }) :=
  match tokens with
  | .literal l :: rest => some (.literal l, ⟨rest, Nat.lt_succ_self _⟩)
  | .value :: rest => some (.value, ⟨rest, Nat.lt_succ_self _⟩)
  | .path :: rest => some (.path, ⟨rest, Nat.lt_succ_self _⟩)
  | .openParen :: rest =>
    match readLevel? 1 rest with
    | some (e, ⟨.closeParen :: rest', shorter⟩) =>
      some (e, ⟨rest', Nat.lt_succ_of_lt (Nat.lt_of_succ_lt shorter)⟩)
    | _ => none
  | _ => none
termination_by (tokens.length, 0)

end

/-- A whole expression, if nothing follows it. -/
def readExpr? (tokens : List Token) : Option Expr :=
  match readLevel? 1 tokens with
  | some (e, ⟨[], _⟩) => some e
  | _ => none

/-! ## What is read was derived -/

/-- What was read of the lexemes in front of `rest` is the expression `e` at the level. -/
def Sound (level : Nat) (tokens : List Token) (e : Expr) (rest : List Token) : Prop :=
  ∃ read, tokens = read ++ rest ∧ Derives level read e

mutual

theorem sound_readLevel? {level : Nat} {tokens : List Token} {e : Expr}
    {rest : { rest : List Token // rest.length < tokens.length }} (low : level ≤ postfixLevel)
    (found : readLevel? level tokens = some (e, rest)) : Sound level tokens e rest.val := by
  rw [readLevel?] at found
  split at found
  · rename_i binary
    cases operand : readLevel? (level + 1) tokens with
    | none =>
        rw [operand] at found
        cases found
    | some first =>
        obtain ⟨first, middle⟩ := first
        rw [operand] at found
        cases found
        obtain ⟨read, eq, derives⟩ := sound_readLevel? (Nat.le_trans binary (by decide)) operand
        have := middle.property
        have whole := sound_readOperators derives.tighter middle.val
        rw [← eq] at whole
        exact whole
  split at found
  · rename_i unary
    rw [unary]
    exact sound_readUnary? found
  · rename_i above other
    have level_eq : level = postfixLevel :=
      Nat.le_antisymm low (Nat.lt_of_le_of_ne (Nat.le_of_not_lt above) (Ne.symm other))
    rw [level_eq]
    exact sound_readPostfix? found
termination_by (tokens.length, 3 + (unaryLevel - level))

/-- Behind an operand at the level, what is read of the operators of the level is at the level again. -/
theorem sound_readOperators {level : Nat} {read : List Token} {left : Expr}
    (derives : Derives level read left) (tokens : List Token) :
    Sound level (read ++ tokens) (readOperators level left tokens).1
      (readOperators level left tokens).2.val := by
  have stopped : Sound level (read ++ tokens) left tokens := ⟨read, rfl, derives⟩
  rw [readOperators.eq_def]
  cases tokens with
  | nil => exact stopped
  | cons token rest =>
      cases token with
      | operator op =>
          dsimp only
          split
          · rename_i same
            subst same
            cases operand : readLevel? (binaryLevel op + 1) rest with
            | none => exact stopped
            | some right =>
                obtain ⟨right, middle⟩ := right
                have low : binaryLevel op + 1 ≤ postfixLevel := by cases op <;> decide
                obtain ⟨read', eq, derives'⟩ := sound_readLevel? low operand
                have := middle.property
                have whole := sound_readOperators (derives.binary op derives') middle.val
                rw [List.append_assoc, List.cons_append, ← eq] at whole
                exact whole
          · exact stopped
      | _ => exact stopped
termination_by (tokens.length, 0)

theorem sound_readUnary? {tokens : List Token} {e : Expr}
    {rest : { rest : List Token // rest.length < tokens.length }}
    (found : readUnary? tokens = some (e, rest)) : Sound unaryLevel tokens e rest.val := by
  have bare (found : readPostfix? tokens = some (e, rest)) : Sound unaryLevel tokens e rest.val := by
    obtain ⟨read, eq, derives⟩ := sound_readPostfix? found
    exact ⟨read, eq, derives.tighter⟩
  rw [readUnary?.eq_def] at found
  cases tokens with
  | nil => exact bare found
  | cons token others =>
      cases token with
      | bang =>
          obtain ⟨⟨operand, last⟩, operand_found, eq⟩ := Option.map_eq_some_iff.mp found
          cases eq
          obtain ⟨read, eq, derives⟩ := sound_readUnary? operand_found
          exact ⟨_ :: read, congrArg _ eq, derives.unary .not⟩
      | operator op =>
          cases op with
          | sub =>
              obtain ⟨⟨operand, last⟩, operand_found, eq⟩ := Option.map_eq_some_iff.mp found
              cases eq
              obtain ⟨read, eq, derives⟩ := sound_readUnary? operand_found
              exact ⟨_ :: read, congrArg _ eq, derives.unary .neg⟩
          | _ => exact bare found
      | _ => exact bare found
termination_by (tokens.length, 2)

theorem sound_readPostfix? {tokens : List Token} {e : Expr}
    {rest : { rest : List Token // rest.length < tokens.length }}
    (found : readPostfix? tokens = some (e, rest)) : Sound postfixLevel tokens e rest.val := by
  rw [readPostfix?] at found
  cases primary : readPrimary? tokens with
  | none =>
      rw [primary] at found
      cases found
  | some first =>
      obtain ⟨first, middle⟩ := first
      rw [primary] at found
      cases found
      obtain ⟨read, eq, derives⟩ := sound_readPrimary? primary
      have := middle.property
      have whole := sound_readAccessors derives middle.val
      rw [← eq] at whole
      exact whole
termination_by (tokens.length, 1)

/-- Behind a postfix expression, what is read of members and subscripts makes a postfix expression. -/
theorem sound_readAccessors {read : List Token} {target : Expr}
    (derives : Derives postfixLevel read target) (tokens : List Token) :
    Sound postfixLevel (read ++ tokens) (readAccessors target tokens).1
      (readAccessors target tokens).2.val := by
  have stopped : Sound postfixLevel (read ++ tokens) target tokens := ⟨read, rfl, derives⟩
  rw [readAccessors.eq_def]
  cases tokens with
  | nil => exact stopped
  | cons token rest =>
      cases token with
      | member name =>
          have whole := sound_readAccessors (derives.member name) rest
          rw [List.append_assoc] at whole
          exact whole
      | openBracket =>
          dsimp only
          split
          · rename_i position rest' shorter inner
            obtain ⟨read', eq, derives'⟩ := sound_readLevel? (by decide) inner
            have := Nat.lt_of_succ_lt shorter
            have whole := sound_readAccessors (derives.index derives') rest'
            rw [List.append_assoc, List.cons_append, List.append_assoc, List.singleton_append, ← eq]
              at whole
            exact whole
          · exact stopped
      | _ => exact stopped
termination_by (tokens.length, 0)

theorem sound_readPrimary? {tokens : List Token} {e : Expr}
    {rest : { rest : List Token // rest.length < tokens.length }}
    (found : readPrimary? tokens = some (e, rest)) : Sound postfixLevel tokens e rest.val := by
  rw [readPrimary?.eq_def] at found
  cases tokens with
  | nil => cases found
  | cons token others =>
      cases token with
      | literal l =>
          cases found
          exact ⟨[_], rfl, .literal _⟩
      | value =>
          cases found
          exact ⟨[_], rfl, .value⟩
      | path =>
          cases found
          exact ⟨[_], rfl, .path⟩
      | openParen =>
          dsimp only at found
          split at found
          · rename_i inner last shorter inner_found
            cases found
            obtain ⟨read, eq, derives⟩ := sound_readLevel? (by decide) inner_found
            refine ⟨_ :: (read ++ [.closeParen]), congrArg _ ?_, derives.enclosed⟩
            exact eq.trans (List.append_cons _ _ _)
          · cases found
      | _ => cases found
termination_by (tokens.length, 0)

end

/-! ## What is derived is read

From here on the bound on what is left is out of the way: `leaves` forgets it. -/

def leaves {bound : List Token → Prop} (read : Option (Expr × { rest : List Token // bound rest })) :
    Option (Expr × List Token) :=
  read.map fun (e, rest) => (e, rest.val)

theorem leaves_eq_some_iff {bound : List Token → Prop}
    {read : Option (Expr × { rest : List Token // bound rest })} {e : Expr} {rest : List Token} :
    leaves read = some (e, rest) ↔ ∃ h, read = some (e, ⟨rest, h⟩) := by
  constructor
  · intro eq
    obtain ⟨⟨_, _, h⟩, rfl, same⟩ := Option.map_eq_some_iff.mp eq
    cases same
    exact ⟨h, rfl⟩
  · rintro ⟨h, rfl⟩
    rfl

/-- What the reading of a level makes of an expression that it has read and of what follows. -/
def goOn (level : Nat) (e : Expr) (rest : List Token) : Expr × List Token :=
  if level < unaryLevel then ((readOperators level e rest).1, (readOperators level e rest).2.val)
  else if level = unaryLevel then (e, rest)
  else ((readAccessors e rest).1, (readAccessors e rest).2.val)

section

variable {level : Nat} {tokens rest : List Token} {e : Expr}

theorem leaves_readLevel? (binary : level < unaryLevel) :
    leaves (readLevel? level tokens)
      = (leaves (readLevel? (level + 1) tokens)).map fun r => goOn level r.1 r.2 := by
  rw [readLevel?, if_pos binary]
  cases readLevel? (level + 1) tokens with
  | none => rfl
  | some first =>
      simp only [leaves, goOn, if_pos binary, Option.map_some]

theorem readLevel?_unaryLevel : readLevel? unaryLevel tokens = readUnary? tokens := by
  rw [readLevel?, if_neg (Nat.lt_irrefl _), if_pos rfl]

theorem readLevel?_postfixLevel : readLevel? postfixLevel tokens = readPostfix? tokens := by
  rw [readLevel?, if_neg (by decide), if_neg (by decide)]

theorem leaves_readPostfix? :
    leaves (readPostfix? tokens)
      = (leaves (readPrimary? tokens)).map fun r => goOn postfixLevel r.1 r.2 := by
  rw [readPostfix?]
  cases readPrimary? tokens with
  | none => rfl
  | some first => rfl

theorem leaves_readLevel?_of_readPrimary? (found : leaves (readPrimary? tokens) = some (e, rest)) :
    leaves (readLevel? postfixLevel tokens) = some (goOn postfixLevel e rest) := by
  rw [readLevel?_postfixLevel, leaves_readPostfix?, found]
  rfl

theorem leaves_readUnary? (op : UnaryOp) :
    leaves (readUnary? (unaryToken op :: tokens))
      = (leaves (readUnary? tokens)).map fun r => (.unary op r.1, r.2) := by
  cases op <;>
  · rw [unaryToken, readUnary?, leaves, leaves, Option.map_map, Option.map_map]
    rfl

theorem leaves_readUnary?_of_readPostfix? {r : Expr × List Token}
    (found : leaves (readPostfix? tokens) = some r) : leaves (readUnary? tokens) = some r := by
  rw [readUnary?.eq_def]
  rw [leaves_readPostfix?, readPrimary?.eq_def] at found
  split
  · cases found
  · cases found
  · rwa [leaves_readPostfix?, readPrimary?.eq_def]

theorem leaves_readPrimary?_enclosed
    (inner : leaves (readLevel? 1 tokens) = some (e, .closeParen :: rest)) :
    leaves (readPrimary? (.openParen :: tokens)) = some (e, rest) := by
  obtain ⟨_, eq⟩ := leaves_eq_some_iff.mp inner
  rw [readPrimary?, eq]
  rfl

theorem goOn_member (name : String) :
    goOn postfixLevel e (.member name :: rest) = goOn postfixLevel (.member e name) rest := by
  rw [goOn, readAccessors]
  rfl

theorem goOn_index {position : Expr}
    (inner : leaves (readLevel? 1 tokens) = some (position, .closeBracket :: rest)) :
    goOn postfixLevel e (.openBracket :: tokens) = goOn postfixLevel (.index e position) rest := by
  obtain ⟨_, eq⟩ := leaves_eq_some_iff.mp inner
  rw [goOn, readAccessors, eq]
  rfl

theorem goOn_operator (op : BinaryOp) {right : Expr}
    (operand : leaves (readLevel? (binaryLevel op + 1) tokens) = some (right, rest)) :
    goOn (binaryLevel op) e (.operator op :: tokens)
      = goOn (binaryLevel op) (.binary op e right) rest := by
  have binary : binaryLevel op < unaryLevel := by cases op <;> decide
  obtain ⟨_, eq⟩ := leaves_eq_some_iff.mp operand
  rw [goOn, if_pos binary, goOn, if_pos binary, readOperators, if_pos rfl, eq]

/-- What follows begins with nothing that the reading of the level, or of a later one, takes. -/
def Halts (level : Nat) : List Token → Prop
  | .operator op :: _ => binaryLevel op < level
  | .member _ :: _ | .openBracket :: _ => postfixLevel < level
  | _ => True

theorem Halts.succ (h : Halts level rest) : Halts (level + 1) rest := by
  unfold Halts at h ⊢
  split
  · exact Nat.lt_succ_of_lt h
  · exact Nat.lt_succ_of_lt h
  · exact Nat.lt_succ_of_lt h
  · trivial

theorem Halts.goOn (h : Halts level rest) (low : level ≤ postfixLevel) :
    goOn level e rest = (e, rest) := by
  rw [Script.goOn]
  split
  · rw [readOperators.eq_def]
    cases rest with
    | nil => rfl
    | cons token others =>
        cases token with
        | operator op =>
            dsimp only
            rw [if_neg (Nat.ne_of_lt h)]
        | _ => rfl
  split
  · rfl
  · rw [readAccessors.eq_def]
    cases rest with
    | nil => rfl
    | cons token others =>
        cases token with
        | member name => exact absurd h (Nat.not_lt_of_le low)
        | openBracket => exact absurd h (Nat.not_lt_of_le low)
        | _ => rfl

theorem Derives.le_postfixLevel (h : Derives level tokens e) : level ≤ postfixLevel := by
  induction h with
  | unary => decide
  | binary op => cases op <;> decide
  | tighter _ ih => exact Nat.le_of_succ_le ih
  | _ => exact Nat.le_refl _

end

/-- The reading of a level comes past what is derived at the level, and goes on with what follows. -/
theorem Derives.reads {level : Nat} {tokens : List Token} {e : Expr} (h : Derives level tokens e)
    {rest : List Token} (halts : Halts (level + 1) rest) :
    leaves (readLevel? level (tokens ++ rest)) = some (goOn level e rest) := by
  induction h generalizing rest with
  | literal l =>
      refine leaves_readLevel?_of_readPrimary? ?_
      rw [List.singleton_append, readPrimary?]
      rfl
  | value =>
      refine leaves_readLevel?_of_readPrimary? ?_
      rw [List.singleton_append, readPrimary?]
      rfl
  | path =>
      refine leaves_readLevel?_of_readPrimary? ?_
      rw [List.singleton_append, readPrimary?]
      rfl
  | @enclosed tokens e _ ih =>
      have inner : leaves (readLevel? 1 (tokens ++ .closeParen :: rest))
          = some (e, .closeParen :: rest) := by
        have ends (level : Nat) : Halts level (.closeParen :: rest) := trivial
        rw [ih (ends _), (ends 1).goOn (by decide)]
      rw [List.cons_append, List.append_assoc, List.singleton_append]
      exact leaves_readLevel?_of_readPrimary? (leaves_readPrimary?_enclosed inner)
  | member name _ ih =>
      rw [List.append_assoc, List.singleton_append, ih (Nat.lt_succ_self _), goOn_member]
  | @index tokens inner target position _ _ ih ih' =>
      have subscript : leaves (readLevel? 1 (inner ++ .closeBracket :: rest))
          = some (position, .closeBracket :: rest) := by
        have ends (level : Nat) : Halts level (.closeBracket :: rest) := trivial
        rw [ih' (ends _), (ends 1).goOn (by decide)]
      rw [List.append_assoc, List.cons_append, List.append_assoc, List.singleton_append,
        ih (Nat.lt_succ_self _), goOn_index subscript]
  | @unary op tokens operand _ ih =>
      have operand_found := ih halts
      rw [readLevel?_unaryLevel] at operand_found ⊢
      rw [List.cons_append, leaves_readUnary?, operand_found]
      rfl
  | @binary op tokens tokens' left right _ derives ih ih' =>
      have operand : leaves (readLevel? (binaryLevel op + 1) (tokens' ++ rest))
          = some (right, rest) := by
        rw [ih' halts.succ, halts.goOn derives.le_postfixLevel]
      rw [List.append_assoc, List.cons_append, ih (Nat.lt_succ_self _), goOn_operator op operand]
  | @tighter level tokens e derives ih =>
      have next : leaves (readLevel? (level + 1) (tokens ++ rest)) = some (e, rest) := by
        rw [ih halts.succ, halts.goOn derives.le_postfixLevel]
      obtain binary | unary := Nat.lt_or_eq_of_le (Nat.le_of_lt_succ derives.le_postfixLevel)
      · rw [leaves_readLevel? binary, next]
        rfl
      · obtain rfl : level = unaryLevel := unary
        have found : leaves (readPostfix? (tokens ++ rest)) = some (e, rest) := by
          rw [← readLevel?_postfixLevel]
          exact next
        rw [readLevel?_unaryLevel, leaves_readUnary?_of_readPostfix? found]
        rfl

theorem readExpr?_eq_some_iff {tokens : List Token} {e : Expr} :
    readExpr? tokens = some e ↔ Derives 1 tokens e := by
  constructor
  · intro found
    rw [readExpr?] at found
    split at found
    · rename_i last bound whole
      cases found
      obtain ⟨read, eq, derives⟩ := sound_readLevel? (by decide) whole
      rw [List.append_nil] at eq
      rwa [eq]
    · cases found
  · intro derives
    have ends (level : Nat) : Halts level [] := trivial
    have whole : leaves (readLevel? 1 (tokens ++ [])) = some (e, []) := by
      rw [derives.reads (ends _), (ends 1).goOn (by decide)]
    rw [List.append_nil] at whole
    obtain ⟨_, eq⟩ := leaves_eq_some_iff.mp whole
    rw [readExpr?, eq]

/-- The parser with its stack and the reading level by level are one function. -/
theorem ofTokens?_eq_readExpr? (tokens : List Token) : ofTokens? tokens = readExpr? tokens := by
  ext e
  rw [ofTokens?_eq_some_iff, readExpr?_eq_some_iff]

end Script

end TreePath
