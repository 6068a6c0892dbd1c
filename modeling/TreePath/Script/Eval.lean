/-
# Eval — the value of a script

A script is its text with the expression that the text denotes.  It is evaluated at a value of the document
and its path, and used in two ways: it selects a child, as a key, or it tests a candidate.

* `Expr.eval` is the recursion over expressions.  The right operand of `||` and `&&` is evaluated only if the
  left one does not decide, and the value is that of an operand, not a boolean.
* A property of `undefined` or `null` cannot be read, which is a fault.  Nothing else in an expression fails.
* A number selects an index if it is whole, not negative and below `indexBound`, and else the name that is its
  text; an array or object selects no key, which is a fault too.
-/
import TreePath.Script.Operand
import TreePath.Script.Parse

namespace TreePath

namespace Expr

/-- The value of an operator that evaluates both operands. -/
def combine (op : BinaryOp) (a b : Operand) : Operand :=
  match op with
  | .or => if a.truthy then a else b
  | .and => if a.truthy then b else a
  | .eq => .bool (a.looseEq b)
  | .ne => .bool !a.looseEq b
  | .strictEq => .bool (a.strictEq b)
  | .strictNe => .bool !a.strictEq b
  | .lt => .bool (a.compare? b == some .lt)
  | .le => .bool (a.compare? b == some .lt || a.compare? b == some .eq)
  | .gt => .bool (a.compare? b == some .gt)
  | .ge => .bool (a.compare? b == some .gt || a.compare? b == some .eq)
  | .add => a.plus b
  | .sub => .number (a.toNumber.sub b.toNumber)
  | .mul => .number (a.toNumber.mul b.toNumber)
  | .div => .number (a.toNumber.div b.toNumber)
  | .rem => .number (a.toNumber.rem b.toNumber)

def ofLiteral : Literal → Operand
  | .undefined => .undefined
  | .null => .null
  | .bool b => .bool b
  | .number x => .number x
  | .string s => .text s

/-- Whether the left operand alone decides the result. -/
def decides (op : BinaryOp) (left : Operand) : Bool :=
  match op with
  | .or => left.truthy
  | .and => !left.truthy
  | _ => false

/-- The value of an expression at a value of the document and its path.  The right operand of `||` and
`&&` is evaluated only if the left one does not decide. -/
def eval (value : Json) (path : Option String) : Expr → Except ScriptFlaw Operand
  | .literal l => .ok (ofLiteral l)
  | .value => .ok (.ofJson [] value)
  | .path => .ok ((path.map Operand.text).getD .undefined)
  | .member target name => do (← target.eval value path).member name
  | .index target position => do
    let owner ← target.eval value path
    owner.member (← position.eval value path).toText
  | .unary .not operand => do return .bool !(← operand.eval value path).truthy
  | .unary .neg operand => do return .number (← operand.eval value path).toNumber.neg
  | .binary op left right => do
    let a ← left.eval value path
    if decides op a then return a
    return combine op a (← right.eval value path)

end Expr

/-- A script: its text and what the text denotes. -/
structure Script where
  source : String
  expr : Expr
deriving DecidableEq, Inhabited

namespace Script

def compile (source : String) : Except Fault Script :=
  match parse source with
  | .ok expr => .ok ⟨source, expr⟩
  | .error flaw => .error (.script source flaw)

def usesPath (script : Script) : Bool :=
  script.expr.usesPath

def evaluate (script : Script) (value : Json) (path : Option String) : Except Fault Operand :=
  (script.expr.eval value path).mapError (.script script.source)

/-- Indices in scripts are below this bound, up to which all whole numbers are distinct. -/
def indexBound : Int := (1 <<< 53 : Nat)

/-- The key of a number: an index if it is whole, not negative and below the bound, else its text. -/
def numberKey (x : Binary64) : Key :=
  match x.toInt? with
  | some n => if 0 ≤ n ∧ n < indexBound then .index n.toNat else .name (numberText x)
  | none => .name (numberText x)

/-- The key that an operand selects; an array or object selects none. -/
def operandKey? : Operand → Option Key
  | .number x => some (numberKey x)
  | .tree _ _ => none
  | x => some (.ofBare x.toText)

def key (script : Script) (value : Json) (path : Option String) : Except Fault Key := do
  match operandKey? (← script.evaluate value path) with
  | some key => return key
  | none => throw (.script script.source .notAKey)

def test (script : Script) (value : Json) (path : Option String) : Except Fault Bool := do
  return (← script.evaluate value path).truthy

end Script

end TreePath
