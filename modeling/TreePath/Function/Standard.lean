/-
# Standard functions — sizes, members, rounding, letter case and conversions

A function refuses values of the kinds it is not made for, and the refusal names the function and the kind.

* `length`, `keys` and `values` are for containers; a string has a length in characters.
* `abs`, `ceil`, `floor` and `round` are for numbers.  Integers stay integers.  A whole result below 2⁵³ is
  an integer, so `3` and `3.0` are alike after rounding; the other results are floats.
* `lowercase` and `uppercase` go by the full case mappings, in which one character may become several.
* `string` and `number` convert.  A string denotes the number that is written in it between blanks, infinities
  and the undefined number included; a result that is not finite becomes null.
* `type` has the name of the kind of a value.

`Registry.standard` numbers their identities from a given number on, so that each registry that is made
holds functions of its own.
-/
import TreePath.Binary64.Arithmetic
import TreePath.Function.Registry
import TreePath.Json.Numeral
import TreePath.Json.Writer
import TreePath.Text.Blank
import TreePath.Text.Case

namespace TreePath

/-- The JSON value of a number: an integer if it is whole and below 2⁵³, null if it is not finite. -/
def Json.ofBinary64 (x : Binary64) : Json :=
  match x.toInt? with
  | some n => if n.natAbs < 1 <<< 53 then .num (.integer n) else .num (.float x)
  | none => if x.isFinite then .num (.float x) else .null

/-- Reads a number as `Binary64.read?` does, and the names of the infinities and of the undefined
number in any letter case. -/
def Binary64.readNamed? (text : List Char) : Option Binary64 :=
  let (negative, rest) := Numeral.readSign text
  let name := String.ofList (rest.map Char.toLower)
  if name = "inf" ∨ name = "infinity" then some (.infinite negative)
  else if name = "nan" then some .nan
  else read? text

namespace Standard

def refuse (function : String) (value : Json) : Except Fault Json :=
  .error (.inapplicable function value.kind)

/-- The number of items, members or characters. -/
def length : Json → Except Fault Json
  | .arr items => .ok (.ofNat items.length)
  | .obj members => .ok (.ofNat members.length)
  | .str s => .ok (.ofNat s.toList.length)
  | value => refuse "length" value

def keys : Json → Except Fault Json
  | .obj members => .ok (.arr (members.map fun m => .str m.1))
  | .arr items => .ok (.arr ((List.range items.length).map .ofNat))
  | value => refuse "keys" value

def values : Json → Except Fault Json
  | .obj members => .ok (.arr (members.map Prod.snd))
  | .arr items => .ok (.arr items)
  | value => refuse "values" value

/-- A rounding of numbers; integers stay as they are. -/
def rounding (function : String) (round : Binary64 → Binary64) : Json → Except Fault Json
  | .num (.integer n) => .ok (.num (.integer n))
  | .num (.float x) => .ok (.ofBinary64 (round x))
  | value => refuse function value

/-- The absolute value; that of the least integer has no integer form and is a float. -/
def abs : Json → Except Fault Json
  | .num (.integer n) =>
    if n = Number.minInteger then .ok (.ofBinary64 (Binary64.ofInt n).abs)
    else .ok (.num (.integer n.natAbs))
  | .num (.float x) => .ok (.ofBinary64 x.abs)
  | value => refuse "abs" value

/-- A change of letter case. -/
def recase (function : String) (change : String → String) : Json → Except Fault Json
  | .str s => .ok (.str (change s))
  | value => refuse function value

/-- The text of a value; a string is its own. -/
def string : Json → Except Fault Json
  | .str s => .ok (.str s)
  | value => .ok (.str value.write)

/-- The number of a value: one or zero for booleans, zero for null, what a string denotes between
blanks. -/
def number : Json → Except Fault Json
  | .num n => .ok (.num n)
  | .bool b => .ok (.ofNat b.toNat)
  | .null => .ok (.ofNat 0)
  | .str s =>
    match Binary64.readNamed? (Text.trim s.toList) with
    | some x => .ok (.ofBinary64 x)
    | none => refuse "number" (.str s)
  | value => refuse "number" value

/-- The name of the kind of a value. -/
def type (value : Json) : Except Fault Json :=
  .ok (.str value.kind.name)

def functions : List (String × (Json → Except Fault Json)) :=
  [("length", length), ("keys", keys), ("values", values),
   ("round", rounding "round" Binary64.round), ("floor", rounding "floor" Binary64.floor),
   ("ceil", rounding "ceil" Binary64.ceil), ("abs", abs),
   ("lowercase", recase "lowercase" Text.lowercase),
   ("uppercase", recase "uppercase" Text.uppercase),
   ("string", string), ("number", number), ("type", type)]

end Standard

def Registry.standard (first : Nat) : Registry :=
  .ofList ((Standard.functions.zipIdx first).map fun ((name, apply), identity) =>
    (name, ⟨identity, apply⟩))

end TreePath
