/-
# Json — the trees that paths are evaluated on

The members of an object are kept in order, and a name that is set again keeps its place (`setMember`).
Numbers come in two forms: integers, and double-precision numbers.  `3` and `3.0` are two numbers with
equal values.

## Trees in memory

The type has more trees than can occur.  A tree that was read, or built by the functions of the library, has

* distinct member names,
* integers that a signed or an unsigned word of 64 bits holds,
* finite floats,
* no more items in an array than a word can number.

`Json.Proper` says so, at every depth.  It is asked for where a theorem needs it and not part of the type,
since the readers and the functions can then be plain recursions.
-/
import TreePath.Binary64.Basic

namespace TreePath

inductive Number where
  | integer (value : Int)
  | float (value : Binary64)
deriving DecidableEq, Inhabited

namespace Number

/-- The least integer form: that of a signed word. -/
def minInteger : Int := -(1 <<< 63 : Nat)

/-- The bound below which integers have a form of their own: that of an unsigned word. -/
def integerBound : Int := (1 <<< 64 : Nat)

/-- The integer with that value, or the nearest float if no word holds it. -/
def ofInt (n : Int) : Number :=
  if minInteger ≤ n ∧ n < integerBound then .integer n else .float (.ofInt n)

/-- The nearest double-precision number. -/
def toBinary64 : Number → Binary64
  | .integer n => .ofInt n
  | .float x => x

/-- The number fits one of the two forms. -/
def Proper : Number → Prop
  | .integer n => minInteger ≤ n ∧ n < integerBound
  | .float x => x.isFinite = true

end Number

/-- A tree of values; the members of an object are in order. -/
inductive Json where
  | null
  | bool (value : Bool)
  | num (value : Number)
  | str (value : String)
  | arr (items : List Json)
  | obj (members : List (String × Json))
deriving Inhabited

namespace Json

inductive Kind where
  | null
  | boolean
  | number
  | string
  | array
  | object
deriving DecidableEq, Repr

def Kind.name : Kind → String
  | .null => "null"
  | .boolean => "boolean"
  | .number => "number"
  | .string => "string"
  | .array => "array"
  | .object => "object"

def kind : Json → Kind
  | .null => .null
  | .bool _ => .boolean
  | .num _ => .number
  | .str _ => .string
  | .arr _ => .array
  | .obj _ => .object

/-- Whether the value can have children. -/
def isContainer : Json → Bool
  | .arr _ => true
  | .obj _ => true
  | _ => false

def isArray : Json → Bool
  | .arr _ => true
  | _ => false

/-- Sets a member: in its place if the name is there, else at the end. -/
def setMember (name : String) (value : Json) : List (String × Json) → List (String × Json)
  | [] => [(name, value)]
  | (other, old) :: rest =>
    if other = name then (name, value) :: rest else (other, old) :: setMember name value rest

/-- The integer value. -/
def ofNat (n : Nat) : Json :=
  .num (.integer n)

mutual

/-- Member names are distinct, items can be numbered by words, and numbers fit their forms, at every
depth. -/
def Proper : Json → Prop
  | .null => True
  | .bool _ => True
  | .num n => n.Proper
  | .str _ => True
  | .arr items => items.length ≤ 1 <<< 64 ∧ ProperItems items
  | .obj members => (members.map Prod.fst).Nodup ∧ ProperMembers members

/-- Every item is proper. -/
def ProperItems : List Json → Prop
  | [] => True
  | item :: rest => Proper item ∧ ProperItems rest

/-- Every member's value is proper. -/
def ProperMembers : List (String × Json) → Prop
  | [] => True
  | (_, value) :: rest => Proper value ∧ ProperMembers rest

end

end Json

end TreePath
