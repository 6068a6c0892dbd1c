/-
# Key — the names by which a container knows its children

A key is an array position or a member name.  The two forms overlap: a position is looked up in an object by
its numeral, and a name that is a canonical numeral is looked up in an array as a position.  So a key has a
text and possibly an index, and a lookup uses the index in arrays and the text in objects, whichever form the
key has.

## Where keys come from

* A bare token of a path is a position if it is a canonical numeral (`ofBare`), and a quoted name is always
  a name.  They find the same.
* A scalar that was computed, by a sub-path, goes through `ofScalar?`.  Containers stand for no key.

A canonical numeral has no leading zero and is below `positionBound`, so that a position has one numeral.
Equality of keys tells the two forms apart; equality of what they find does not.
-/
import TreePath.Json.Writer

namespace TreePath

inductive Key where
  | index (position : Nat)
  | name (text : String)
deriving DecidableEq, Inhabited

namespace Key

/-- Positions are below this bound. -/
def positionBound : Nat := 1 <<< 64

/-- The position that a canonical numeral denotes: decimal digits without a leading zero, except zero
itself, and below the bound. -/
def canonicalIndex? (numeral : List Char) : Option Nat :=
  if numeral.isEmpty || !numeral.all Char.isDigit then none
  else if numeral.head? = some '0' ∧ numeral ≠ ['0'] then none
  else if Text.ofDigits numeral < positionBound then some (Text.ofDigits numeral)
  else none

/-- The key of an unquoted token: a position if it is a canonical numeral, else a name. -/
def ofBare (token : String) : Key :=
  match canonicalIndex? token.toList with
  | some position => .index position
  | none => .name token

/-- The key that a computed scalar stands for; containers stand for none. -/
def ofScalar? : Json → Option Key
  | .null => some (.name "null")
  | .bool b => some (.name (if b then "true" else "false"))
  | .num (.integer n) => some (if 0 ≤ n then .index n.toNat else .name (Text.signedDecimal n))
  | .num (.float x) => some (.name (Number.float x).write)
  | .str s => some (.name s)
  | .arr _ => none
  | .obj _ => none

def text : Key → String
  | .index position => Text.decimal position
  | .name text => text

def index? : Key → Option Nat
  | .index position => some position
  | .name text => canonicalIndex? text.toList

/-- The place among the children of `value` of the one that the key names. -/
def position? (key : Key) (value : Json) : Option Nat :=
  match value with
  | .arr items => key.index?.filter (· < items.length)
  | .obj members => members.findIdx? (·.1 = key.text)
  | _ => none

end Key

namespace Json

def childAt? (value : Json) (position : Nat) : Option Json :=
  match value with
  | .arr items => items[position]?
  | .obj members => members[position]?.map Prod.snd
  | _ => none

/-- The children with their keys: array positions ascending, members in order. -/
def children : Json → List (Key × Json)
  | .arr items => items.zipIdx.map fun (item, i) => (.index i, item)
  | .obj members => members.map fun (name, value) => (.name name, value)
  | _ => []

end Json

/-- The child of `value` that the key names. -/
def Key.child? (key : Key) (value : Json) : Option Json :=
  (key.position? value).bind value.childAt?

end TreePath
