/-
# Operand — the values that scripts compute with

Operands are the scalars of documents, `undefined`, and the arrays and objects of the document, which carry
their place below `@`.  An array or object is equal to itself only.

Conversions are loose:

* `undefined`, `null`, `false`, zero, the undefined number and the empty text count as false;
* `+` joins texts as soon as one side is a text, and adds numbers otherwise;
* `==` converts between numbers, texts and booleans, and `===` does not;
* texts are ordered by their code points, and everything else as numbers.

A property of an array or object is the child under that name, but for `length` of an array.  A text has its
characters and its length.  Everything else has no properties, and to read one of `undefined` or `null` is
not allowed at all; that is decided where expressions are evaluated.
-/
import TreePath.Binary64.Arithmetic
import TreePath.Fault
import TreePath.Json.Numeral
import TreePath.Path.Key
import TreePath.Script.Expr
import TreePath.Text.Blank

namespace TreePath

/-- A value of a script. -/
inductive Operand where
  | undefined
  | null
  | bool (value : Bool)
  | number (value : Binary64)
  | text (value : String)
  /-- An array or object, with the positions that lead to it from the value of the script. -/
  | tree (place : List Nat) (value : Json)
deriving Inhabited

namespace Script

/-- The layout of numbers in scripts: always written out. -/
def numberLayout : Layout where
  tie := .up
  positional _ := true
  keepsFraction := false

def numberText : Binary64 → String
  | .nan => "NaN"
  | .infinite negative => if negative then "-Infinity" else "Infinity"
  | .finite negative rank =>
    match Binary64.toInt? (.finite negative rank) with
    | some n =>
      if n.natAbs < Nat.pow 10 21 then Text.signedDecimal n else numberLayout.write negative rank
    | none => numberLayout.write negative rank

/-- The number that a text stands for: zero if it is blank, a decimal numeral or an infinity between
blanks, and undefined otherwise. -/
def textNumber (text : String) : Binary64 :=
  let trimmed := Text.trim text.toList
  if trimmed.isEmpty then .zero false
  else if trimmed = "Infinity".toList ∨ trimmed = "+Infinity".toList then .infinite false
  else if trimmed = "-Infinity".toList then .infinite true
  else (Binary64.read? trimmed).getD .nan

/-- The position that a name denotes: decimal digits that do not begin with a zero before others, for a
number below the bound of positions. -/
def arrayIndex? (name : List Char) : Option Nat :=
  if 1 < name.length ∧ name.head? = some '0' then none
  else if !name.all Char.isDigit || name.isEmpty then none
  else if Text.ofDigits name < Key.positionBound then some (Text.ofDigits name)
  else none

mutual

def plainText : Json → String
  | .null => "null"
  | .bool b => if b then "true" else "false"
  | .num n => numberText n.toBinary64
  | .str s => s
  | .arr items => ",".intercalate (itemTexts items)
  | .obj _ => "[object Object]"

def itemTexts : List Json → List String
  | [] => []
  | .null :: rest => "" :: itemTexts rest
  | item :: rest => plainText item :: itemTexts rest

end

end Script

namespace Operand

/-- The operand for the value at a place. -/
def ofJson (place : List Nat) : Json → Operand
  | .null => .null
  | .bool b => .bool b
  | .num n => .number n.toBinary64
  | .str s => .text s
  | .arr items => .tree place (.arr items)
  | .obj members => .tree place (.obj members)

def truthy : Operand → Bool
  | .undefined => false
  | .null => false
  | .bool b => b
  | .number x => !x.isZero && x ≠ .nan
  | .text s => s ≠ ""
  | .tree _ _ => true

def toText : Operand → String
  | .undefined => "undefined"
  | .null => "null"
  | .bool b => if b then "true" else "false"
  | .number x => Script.numberText x
  | .text s => s
  | .tree _ value => Script.plainText value

def toNumber : Operand → Binary64
  | .undefined => .nan
  | .null => .zero false
  | .bool b => .ofNat b.toNat
  | .number x => x
  | .text s => Script.textNumber s
  | .tree _ value => Script.textNumber (Script.plainText value)

/-- Arrays and objects become their texts. -/
def toPrimitive : Operand → Operand
  | .tree _ value => .text (Script.plainText value)
  | x => x

/-- The length of a text or an array, as a number. -/
def ofLength (length : Nat) : Operand :=
  .number (.ofNat length)

/-- The property of a text: its length in characters, or the character at a position. -/
def textMember (text : List Char) (name : String) : Operand :=
  if name = "length" then ofLength text.length
  else
    match (Script.arrayIndex? name.toList).bind (text[·]?) with
    | some c => .text (String.ofList [c])
    | none => .undefined

/-- The position of the child that a name selects. -/
def childPosition? (value : Json) (name : String) : Option Nat :=
  match value with
  | .arr items => (Script.arrayIndex? name.toList).filter (· < items.length)
  | .obj members => members.findIdx? (·.1 = name)
  | _ => none

def child (place : List Nat) (value : Json) (name : String) : Operand :=
  match childPosition? value name with
  | none => .undefined
  | some position =>
    match value.childAt? position with
    | none => .undefined
    | some found => ofJson (place ++ [position]) found

/-- The property of an array or object; `length` of an array is not a child. -/
def treeMember (place : List Nat) (value : Json) (name : String) : Operand :=
  match value with
  | .arr items => if name = "length" then ofLength items.length else child place value name
  | _ => child place value name

def member (target : Operand) (name : String) : Except ScriptFlaw Operand :=
  match target with
  | .undefined => .error (.unreadable name "undefined")
  | .null => .error (.unreadable name "null")
  | .bool _ => .ok .undefined
  | .number _ => .ok .undefined
  | .text s => .ok (textMember s.toList name)
  | .tree place value => .ok (treeMember place value name)

def strictEq : Operand → Operand → Bool
  | .undefined, .undefined => true
  | .null, .null => true
  | .bool a, .bool b => a == b
  | .number a, .number b => a.equal b
  | .text a, .text b => a == b
  | .tree a _, .tree b _ => a == b
  | _, _ => false

def isDefined : Operand → Bool
  | .undefined => false
  | .null => false
  | _ => true

/-- Booleans become numbers. -/
def unboolean : Operand → Operand
  | .bool b => .number (.ofNat b.toNat)
  | x => x

/-- Equality of numbers and texts: a text is compared with a number as a number. -/
def scalarEq : Operand → Operand → Bool
  | .number a, .text b => a.equal (Script.textNumber b)
  | .text a, .number b => (Script.textNumber a).equal b
  | a, b => strictEq a b

/-- Equality with conversion.  `undefined` and `null` equal each other and nothing else; two arrays or
objects are compared as they are, and one of them by its text; then booleans count as numbers. -/
def looseEq (a b : Operand) : Bool :=
  if !a.isDefined || !b.isDefined then !a.isDefined && !b.isDefined
  else
    match a, b with
    | .tree _ _, .tree _ _ => strictEq a b
    | a, b => scalarEq a.toPrimitive.unboolean b.toPrimitive.unboolean

/-- The order of two operands: that of texts by code points if both are texts, else that of numbers. -/
def compare? (a b : Operand) : Option Ordering :=
  match a.toPrimitive, b.toPrimitive with
  | .text s, .text t => some (if s < t then .lt else if s = t then .eq else .gt)
  | p, q => p.toNumber.compare? q.toNumber

/-- The sum, or the joined texts if one side is a text. -/
def plus (a b : Operand) : Operand :=
  match a.toPrimitive, b.toPrimitive with
  | .text s, q => .text (s ++ q.toText)
  | p, .text t => .text (p.toText ++ t)
  | p, q => .number (p.toNumber.add q.toNumber)

end Operand

end TreePath
