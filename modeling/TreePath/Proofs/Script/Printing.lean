/-
# Printing — expressions as they are written

An expression is written with the fewest parentheses: an operand stands in parentheses exactly if it binds
less tightly than its place asks for.  Operators between operands group to the left, so the place of a right
operand asks for one level more.  They have a space on both sides.

Strings stand between marks of either kind, with a backslash before that mark and before backslashes, and
decoding what stands between the marks gives the string (`Mark.unescape_body`).  A number is written by any
text of it, so the type of written expressions (`Written`) has the texts, and `expr` is the expression that
is meant.

`pieces` has the lexemes with their spelling and their spaces.  Lexemes and text are both read off it, so that
they cannot disagree.
-/
import TreePath.Proofs.Script.Derivations
import TreePath.Proofs.Script.Spacing

namespace TreePath

namespace Script

structure Mark where
  char : Char
  isMark : Quote.isMark char = true

/-- A literal as it is written: a number by its text, a string between marks of either kind. -/
inductive WrittenLiteral where
  | undefined
  | null
  | bool (value : Bool)
  | number (number : NumberText)
  | string (mark : Mark) (text : String)

/-- An expression as it is written. -/
inductive Written where
  | literal (literal : WrittenLiteral)
  | value
  | path
  | member (target : Written) (name : NameText)
  | index (target position : Written)
  | unary (op : UnaryOp) (operand : Written)
  | binary (op : BinaryOp) (left right : Written)

/-! ## Strings between marks -/

/-- A character between marks: the mark and the backslash stand after a backslash. -/
def Mark.escape (mark : Mark) (c : Char) : List Char :=
  if c = mark.char ∨ c = '\\' then ['\\', c] else [c]

def Mark.body (mark : Mark) (text : String) : List Char :=
  text.toList.flatMap mark.escape

theorem Mark.inside_body (mark : Mark) (text : String) :
    Quote.Inside mark.char (mark.body text) := by
  refine Quote.inside_flatMap ?_ text.toList
  intro c
  rw [escape]
  split
  · exact .escape .nil
  · rename_i plain
    rw [not_or] at plain
    exact .plain plain.1 plain.2 .nil

theorem Mark.unescape_escape (mark : Mark) (c : Char) (rest : List Char) :
    unescape (mark.escape c ++ rest) = (unescape rest).map (c :: ·) := by
  rw [escape]
  split
  · rename_i special
    have itself : (c = 'u' → False) ∧ Text.control? c = none := by
      rcases special with rfl | rfl
      · rcases Quote.isMark_iff.mp mark.isMark with char | char
        · rw [char]
          exact ⟨by decide, rfl⟩
        · rw [char]
          exact ⟨by decide, rfl⟩
      · exact ⟨by decide, rfl⟩
    rw [List.cons_append, List.cons_append, List.nil_append, unescape.eq_4 c rest itself.1,
      itself.2]
    rfl
  · rename_i plain
    rw [not_or] at plain
    exact unescape.eq_5 c rest (fun _ eq _ => plain.2 eq) (fun eq _ => plain.2 eq)
      fun _ _ eq _ => plain.2 eq

theorem Mark.unescape_body (mark : Mark) (text : String) :
    unescape (mark.body text) = .ok text.toList := by
  unfold body
  induction text.toList with
  | nil => rw [List.flatMap_nil, unescape]
  | cons c rest ih =>
      rw [List.flatMap_cons, mark.unescape_escape, ih]
      rfl

/-! ## The expression that is written -/

namespace WrittenLiteral

def toLiteral : WrittenLiteral → Literal
  | undefined => .undefined
  | null => .null
  | bool value => .bool value
  | number n => .number n.value
  | string _ text => .string text

/-- The literal with a string as it stands between its marks. -/
def raw : WrittenLiteral → Literal
  | string mark text => .string (String.ofList (mark.body text))
  | l => l.toLiteral

end WrittenLiteral

namespace Written

def expr : Written → Expr
  | literal l => .literal l.toLiteral
  | value => .value
  | path => .path
  | member target name => .member target.expr (String.ofList name.text)
  | index target position => .index target.expr position.expr
  | unary op operand => .unary op operand.expr
  | binary op left right => .binary op left.expr right.expr

/-- The expression with strings as they stand between their marks. -/
def raw : Written → Expr
  | literal l => .literal l.raw
  | value => .value
  | path => .path
  | member target name => .member target.raw (String.ofList name.text)
  | index target position => .index target.raw position.raw
  | unary op operand => .unary op operand.raw
  | binary op left right => .binary op left.raw right.raw

theorem unescapeExpr_raw (e : Written) : unescapeExpr e.raw = .ok e.expr := by
  induction e with
  | literal l =>
      cases l with
      | string mark text =>
          show (unescape (String.ofList _).toList).map _ = _
          rw [String.toList_ofList, mark.unescape_body]
          show Except.ok (Expr.literal (.string (String.ofList text.toList))) = _
          rw [String.ofList_toList]
          rfl
      | undefined => rfl
      | null => rfl
      | bool value => rfl
      | number n => rfl
  | value => rfl
  | path => rfl
  | member target name ih =>
      rw [raw, unescapeExpr, ih]
      rfl
  | index target position ihTarget ihPosition =>
      rw [raw, unescapeExpr, ihTarget, ihPosition]
      rfl
  | unary op operand ih =>
      rw [raw, unescapeExpr, ih]
      rfl
  | binary op left right ihLeft ihRight =>
      rw [raw, unescapeExpr, ihLeft, ihRight]
      rfl

end Written

/-! ## The lexemes that are written -/

/-- How an operator between operands is spelled. -/
def spellBinary : BinaryOp → List Char
  | .or => ['|', '|']
  | .and => ['&', '&']
  | .eq => ['=', '=']
  | .ne => ['!', '=']
  | .strictEq => ['=', '=', '=']
  | .strictNe => ['!', '=', '=']
  | .lt => ['<']
  | .le => ['<', '=']
  | .gt => ['>']
  | .ge => ['>', '=']
  | .add => ['+']
  | .sub => ['-']
  | .mul => ['*']
  | .div => ['/']
  | .rem => ['%']

namespace Lexeme

def symbol (marks : List Char) (token : Token) (mem : (marks, token) ∈ symbols) : Lexeme :=
  ⟨token, marks, .symbol mem⟩

def ofBinary (op : BinaryOp) : Lexeme :=
  symbol (spellBinary op) (.operator op) (by cases op <;> decide)

def ofUnary : UnaryOp → Lexeme
  | .not => symbol ['!'] .bang (by decide)
  | .neg => symbol ['-'] (.operator .sub) (by decide)

def openParen : Lexeme :=
  symbol ['('] .openParen (by decide)

def closeParen : Lexeme :=
  symbol [')'] .closeParen (by decide)

def openBracket : Lexeme :=
  symbol ['['] .openBracket (by decide)

def closeBracket : Lexeme :=
  symbol [']'] .closeBracket (by decide)

def ofMember (name : NameText) : Lexeme :=
  ⟨.member (String.ofList name.text), '.' :: name.text, .member name⟩

def keyword (word : List Char) (l : Literal) (mem : (word, l) ∈ keywords) : Lexeme :=
  ⟨.literal l, word, .keyword mem⟩

def ofLiteral : WrittenLiteral → Lexeme
  | .undefined => keyword ['u', 'n', 'd', 'e', 'f', 'i', 'n', 'e', 'd'] .undefined (by decide)
  | .null => keyword ['n', 'u', 'l', 'l'] .null (by decide)
  | .bool true => keyword ['t', 'r', 'u', 'e'] (.bool true) (by decide)
  | .bool false => keyword ['f', 'a', 'l', 's', 'e'] (.bool false) (by decide)
  | .number n => ⟨.literal (.number n.value), n.text, .number n⟩
  | .string mark text =>
    ⟨_, mark.char :: (mark.body text ++ [mark.char]), .string mark.isMark (mark.inside_body text)⟩

def value : Lexeme :=
  ⟨.value, ['@'], .value⟩

def path : Lexeme :=
  ⟨.path, ['@', 'p', 'a', 't', 'h'], .path⟩

end Lexeme

/-- A lexeme, with a space on both sides or none. -/
structure Piece where
  lexeme : Lexeme
  spaced : Bool

def Piece.text (piece : Piece) : List Char :=
  if piece.spaced then ' ' :: (piece.lexeme.text ++ [' ']) else piece.lexeme.text

namespace Written

/-- How tightly an expression binds. -/
def level : Written → Nat
  | binary op _ _ => binaryLevel op
  | unary _ _ => unaryLevel
  | _ => postfixLevel

/-- The pieces of an operand, in parentheses if it binds less tightly than its place asks for. -/
def enclose (asked level : Nat) (pieces : List Piece) : List Piece :=
  if level < asked then ⟨.openParen, false⟩ :: (pieces ++ [⟨.closeParen, false⟩]) else pieces

/-- The pieces of an expression with the fewest parentheses: operators between operands group to the
left. -/
def pieces : Written → List Piece
  | literal l => [⟨.ofLiteral l, false⟩]
  | value => [⟨.value, false⟩]
  | path => [⟨.path, false⟩]
  | member target name => enclose postfixLevel target.level target.pieces ++ [⟨.ofMember name, false⟩]
  | index target position =>
    enclose postfixLevel target.level target.pieces ++
      ⟨.openBracket, false⟩ :: (position.pieces ++ [⟨.closeBracket, false⟩])
  | unary op operand => ⟨.ofUnary op, false⟩ :: enclose unaryLevel operand.level operand.pieces
  | binary op left right =>
    enclose (binaryLevel op) left.level left.pieces ++
      ⟨.ofBinary op, true⟩ :: enclose (binaryLevel op + 1) right.level right.pieces

def lexemes (e : Written) : List Lexeme :=
  e.pieces.map Piece.lexeme

def print (e : Written) : String :=
  String.ofList (e.pieces.flatMap Piece.text)

end Written

end Script

end TreePath
