/-
# Expr — the expression trees of scripts

A script sees two things: the value it is evaluated at, written `@`, and the canonical path of that value,
written `@path`.  An expression is built of these and of literals, with members, subscripts and operators.

A string literal is kept as it stands between its marks until the whole script was found to follow the
grammar; then it is decoded.  So there is one type of expressions for both.

Whether `@path` occurs is asked often (`Expr.usesPath`), since the path of a node is only written for scripts
that look at it.
-/
import TreePath.Binary64.Basic

namespace TreePath

inductive Literal where
  | undefined
  | null
  | bool (value : Bool)
  | number (value : Binary64)
  | string (text : String)
deriving DecidableEq, Inhabited

inductive UnaryOp where
  | not
  | neg
deriving DecidableEq, Repr

inductive BinaryOp where
  | or
  | and
  | eq
  | ne
  | strictEq
  | strictNe
  | lt
  | le
  | gt
  | ge
  | add
  | sub
  | mul
  | div
  | rem
deriving DecidableEq, Repr

/-- How tightly an operator binds; all group to the left. -/
def BinaryOp.precedence : BinaryOp → Nat
  | .or => 1
  | .and => 2
  | .eq => 3
  | .ne => 3
  | .strictEq => 3
  | .strictNe => 3
  | .lt => 4
  | .le => 4
  | .gt => 4
  | .ge => 4
  | .add => 5
  | .sub => 5
  | .mul => 6
  | .div => 6
  | .rem => 6

inductive Expr where
  | literal (literal : Literal)
  /-- `@` -/
  | value
  /-- `@path` -/
  | path
  /-- `target.name` -/
  | member (target : Expr) (name : String)
  /-- `target[position]` -/
  | index (target position : Expr)
  | unary (op : UnaryOp) (operand : Expr)
  | binary (op : BinaryOp) (left right : Expr)
deriving DecidableEq, Inhabited

/-- Whether `@path` occurs in an expression. -/
def Expr.usesPath : Expr → Bool
  | .literal _ => false
  | .value => false
  | .path => true
  | .member target _ => target.usesPath
  | .index target position => target.usesPath || position.usesPath
  | .unary _ operand => operand.usesPath
  | .binary _ left right => left.usesPath || right.usesPath

end TreePath
