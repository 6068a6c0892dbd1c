/-
# Layout — the text of a decimal

Floats are written in several ways: in documents, by scripts that join numbers to strings, and as keys.  All
of them write the digits of the shortest decimal that reads back, and differ in three things only.  A layout
is these three:

* for which positions of the decimal point a number is written out, and not in scientific notation;
* whether a whole number keeps a fraction digit;
* which way a tie between two shortest decimals goes.

The layouts in use are defined beside the texts that they are for.
-/
import TreePath.Binary64.Decimal

namespace TreePath

/-- How numbers are laid out as text. -/
structure Layout where
  /-- Where a value in the middle of two shortest decimals goes. -/
  tie : Tie
  /-- Whether the number `0.d₁d₂… × 10 ^ place` is written out rather than with an exponent. -/
  positional : Int → Bool
  /-- Whether a whole number that is written out ends in `.0`. -/
  keepsFraction : Bool

namespace Layout

def writeOut (keepsFraction : Bool) (digits : List Char) (place : Int) : List Char :=
  if place ≤ 0 then
    '0' :: '.' :: List.replicate (-place).toNat '0' ++ digits
  else
    let whole := digits.take place.toNat
    let fraction := digits.drop place.toNat
    let zeros := List.replicate (place.toNat - digits.length) '0'
    if fraction.isEmpty then whole ++ zeros ++ (if keepsFraction then ['.', '0'] else [])
    else whole ++ '.' :: fraction

/-- The digits of a decimal with the point after the first, and an exponent that shows its sign. -/
def writeScientific (digits : List Char) (place : Int) : List Char :=
  let exponent := place - 1
  let mantissa :=
    match digits with
    | first :: second :: rest => first :: '.' :: second :: rest
    | short => short
  mantissa ++ 'e' :: (if exponent < 0 then '-' else '+') :: Nat.toDigits 10 exponent.natAbs

def write (layout : Layout) (negative : Bool) (rank : Nat) : String :=
  let d := Binary64.shortest layout.tie rank
  let digits := Nat.toDigits 10 d.digits
  let place : Int := if d.digits = 0 then 1 else digits.length + d.exponent
  let text :=
    if layout.positional place then writeOut layout.keepsFraction digits place
    else writeScientific digits place
  String.ofList (if negative then '-' :: text else text)

end Layout

end TreePath
