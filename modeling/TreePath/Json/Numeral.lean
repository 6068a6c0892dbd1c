/-
# Numerals — numbers as they stand in a document

A numeral is an optional minus sign, a whole part without leading zeros, an optional fraction and an optional
exponent.  `Numeral` has the parts, and `read?` reads them more freely than documents allow; the conditions
of documents are `hasProperWhole` and `hasProperFraction`.

## Two ways to a float

Without fraction and exponent a numeral denotes an integer, if one of the two word forms holds it.  Every
other numeral, and minus zero, denotes a float, which must be finite.

* `Number.read?` is for documents.  The digits are taken while they fit one word, those that do not fit count
  as zeros or as nothing, and the word is then scaled by a power of ten in double precision.  That is at most
  one rounding for the word and one for each scaling, so the result can be a neighbour of the nearest float:
  `1.1e-25` is read one unit lower.
* `Binary64.read?` is for text that a function or a script converts.  It takes the nearest float.
-/
import TreePath.Json.Basic
import TreePath.Binary64.Arithmetic
import TreePath.Binary64.Decimal

namespace TreePath

structure Numeral where
  whole : List Char
  fraction : Option (List Char)
  exponent : Option Int
deriving DecidableEq, Repr

namespace Numeral

/-- Reads an optional sign: whether it is a minus, and what follows. -/
def readSign : List Char → Bool × List Char
  | '-' :: rest => (true, rest)
  | '+' :: rest => (false, rest)
  | text => (false, text)

/-- Reads an exponent that is all of the text; no text is no exponent. -/
def readExponent? : List Char → Option (Option Int)
  | [] => some none
  | c :: rest =>
    if c = 'e' ∨ c = 'E' then
      let (negative, digits) := readSign rest
      if digits.isEmpty || !digits.all Char.isDigit then none
      else some (some (if negative then -(Text.ofDigits digits : Int) else Text.ofDigits digits))
    else none

/-- Reads digits, an optional point with digits, and an optional exponent.  Either run of digits may be
empty. -/
def read? (text : List Char) : Option Numeral :=
  let whole := text.takeWhile Char.isDigit
  match text.dropWhile Char.isDigit with
  | '.' :: rest =>
    (readExponent? (rest.dropWhile Char.isDigit)).map fun exponent =>
      ⟨whole, some (rest.takeWhile Char.isDigit), exponent⟩
  | rest => (readExponent? rest).map fun exponent => ⟨whole, none, exponent⟩

/-- The decimal that a numeral denotes. -/
def toDecimal (n : Numeral) : Decimal :=
  .ofParts n.whole (n.fraction.getD []) (n.exponent.getD 0)

/-- A whole part of documents: not empty, and no leading zero before another digit. -/
def hasProperWhole (n : Numeral) : Bool :=
  match n.whole with
  | [] => false
  | ['0'] => true
  | '0' :: _ => false
  | _ => true

/-- A fraction of documents is not empty. -/
def hasProperFraction (n : Numeral) : Bool :=
  n.fraction != some []

/-! ## The numbers of documents -/

/-- Appends digits to a whole number while a word holds it.  What is left begins with the first digit that
does not fit. -/
def takeWord (n : Nat) : List Char → Nat × List Char
  | [] => (n, [])
  | c :: rest =>
    let next := 10 * n + Text.digitValue c
    if next < Number.integerBound then takeWord next rest else (n, c :: rest)

/-- The decimal that a numeral is read as, of digits that fit one word.  The digits of the whole part that
do not fit count as zeros, and those of the fraction as nothing. -/
def toWord (n : Numeral) : Decimal :=
  let fraction := n.fraction.getD []
  let (whole, skipped) := takeWord 0 n.whole
  let (digits, ignored) := takeWord whole fraction
  ⟨digits, n.exponent.getD 0 + skipped.length - (fraction.length - ignored.length : Nat)⟩

end Numeral

/-- The largest power of ten that is a double-precision number. -/
def Binary64.largestPower : Nat := 308

/-- Multiplies by a power of ten, or divides by one, in double precision.  Smaller powers than the
reciprocal of the largest one take several divisions. -/
def Binary64.scale? (x : Binary64) (exponent : Int) : Option Binary64 :=
  let power : Binary64 := Decimal.toBinary64 false ⟨1, min exponent.natAbs largestPower⟩
  if exponent.natAbs ≤ largestPower then
    if exponent < 0 then some (x.div power) else (some (x.mul power)).filter isFinite
  else if x.isZero then some x
  else if exponent < 0 then (x.div power).scale? (exponent + largestPower)
  else none
termination_by exponent.natAbs
decreasing_by
  simp only [largestPower] at *
  omega

/-- The number that a numeral of a document denotes. -/
def Number.read? (text : List Char) : Option Number := do
  let (negative, digits) :=
    match text with
    | '-' :: rest => (true, rest)
    | digits => (false, digits)
  let numeral ← Numeral.read? digits
  guard (numeral.hasProperWhole && numeral.hasProperFraction)
  let value := Text.ofDigits numeral.whole
  let integer : Int := if negative then -value else value
  if numeral.fraction.isNone ∧ numeral.exponent.isNone ∧ ¬(negative ∧ value = 0) ∧
      Number.minInteger ≤ integer ∧ integer < Number.integerBound then
    return .integer integer
  let word := numeral.toWord
  let float ← (Binary64.ofNat word.digits).scale? word.exponent
  return .float (if negative then float.neg else float)

/-- Reads a decimal number written freely: an optional sign, digits with an optional point at any place
among them, and an optional exponent. -/
def Binary64.read? (text : List Char) : Option Binary64 := do
  let (negative, digits) := Numeral.readSign text
  let numeral ← Numeral.read? digits
  guard !(numeral.whole ++ numeral.fraction.getD []).isEmpty
  return numeral.toDecimal.toBinary64 negative

end TreePath
