/-
# Grammar — from lexemes to an expression

The parser keeps what is open around the point it has reached, innermost first, and the operand that it has
just completed, if there is one.  So it is a fold over the lexemes.

* Where an operand is due, a literal or a binding completes one; an operator before its operand and a
  parenthesis are put on the stack (`Parse.begin`).
* After an operand, an operator first closes the operators before it that bind at least as tightly, so
  operators of one precedence group to the left.  A member or a subscript applies to the operand before any
  operator is closed (`Parse.continue`).
* A closing parenthesis or bracket closes all operators up to its partner.

`ofTokens?` has the expression if nothing is left open.
-/
import TreePath.Script.Lexemes

namespace TreePath

namespace Script

/-- A construct that waits for an operand. -/
inductive Pending where
  /-- An open parenthesis. -/
  | paren
  /-- An open subscript of `target`. -/
  | subscript (target : Expr)
  | unary (op : UnaryOp)
  | binary (left : Expr) (op : BinaryOp)
deriving DecidableEq

/-- The state of the parser. -/
structure Parse where
  pending : List Pending
  operand : Option Expr
deriving DecidableEq

/-- Closes the operators around `e` that bind at least as tightly as `precedence`. -/
def close (precedence : Nat) (e : Expr) : List Pending → Expr × List Pending
  | .unary op :: rest => close precedence (.unary op e) rest
  | .binary left op :: rest =>
    if precedence ≤ op.precedence then close precedence (.binary op left e) rest
    else (e, .binary left op :: rest)
  | rest => (e, rest)

def Parse.begin (pending : List Pending) : Token → Option Parse
  | .literal l => some ⟨pending, some (.literal l)⟩
  | .value => some ⟨pending, some .value⟩
  | .path => some ⟨pending, some .path⟩
  | .bang => some ⟨.unary .not :: pending, none⟩
  | .operator .sub => some ⟨.unary .neg :: pending, none⟩
  | .openParen => some ⟨.paren :: pending, none⟩
  | _ => none

def Parse.continue (pending : List Pending) (e : Expr) : Token → Option Parse
  | .member name => some ⟨pending, some (.member e name)⟩
  | .openBracket => some ⟨.subscript e :: pending, none⟩
  | .operator op =>
    let (left, rest) := close op.precedence e pending
    some ⟨.binary left op :: rest, none⟩
  | .closeParen =>
    match close 0 e pending with
    | (inner, .paren :: rest) => some ⟨rest, some inner⟩
    | _ => none
  | .closeBracket =>
    match close 0 e pending with
    | (position, .subscript target :: rest) => some ⟨rest, some (.index target position)⟩
    | _ => none
  | _ => none

def Parse.step (s : Parse) (token : Token) : Option Parse :=
  match s.operand with
  | none => Parse.begin s.pending token
  | some e => Parse.continue s.pending e token

/-- Ends the parse: the expression, if nothing is left open. -/
def Parse.finish (s : Parse) : Option Expr :=
  match s.operand with
  | none => none
  | some e =>
    match close 0 e s.pending with
    | (whole, []) => some whole
    | _ => none

/-- The expression that a sequence of lexemes denotes. -/
def ofTokens? (tokens : List Token) : Option Expr :=
  (tokens.foldlM Parse.step ⟨[], none⟩).bind Parse.finish

end Script

end TreePath
