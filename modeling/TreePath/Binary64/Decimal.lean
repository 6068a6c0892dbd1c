/-
# Decimals — between decimal numerals and double-precision numbers

A decimal is a whole number times a power of ten.  It is what a numeral denotes before it is rounded, and
what is written of a float.

## Reading

`toBinary64` takes the nearest number.  Decimals with hundreds of places before or behind the point are
decided without computing the power, so that a short text cannot ask for an enormous number.

## Writing

`shortest` is the shortest decimal that reads back.  For 1, 2, … digits the two neighbours of the value on
the grid of that many digits are tried against the interval of reals that round to the value.  The first grid
with a hit wins, and of two hits the nearer; seventeen digits always do.  Where the value lies in the middle
of two hits, it depends on the kind of text which is taken, and `Tie` says so.
-/
import TreePath.Binary64.Basic
import TreePath.Text.Digits

namespace TreePath

/-- The number `digits × 10 ^ exponent`. -/
structure Decimal where
  digits : Nat
  exponent : Int
deriving DecidableEq, Repr

namespace Decimal

def width (n : Nat) : Nat :=
  (Nat.toDigits 10 n).length

/-- The decimal written as `whole.fraction` times a power of ten. -/
def ofParts (whole fraction : List Char) (exponent : Int) : Decimal :=
  ⟨Text.ofDigits (whole ++ fraction), exponent - fraction.length⟩

/-- The nearest double-precision number.  Decimals with more than 310 places before the point, or more
than 330 zeros after it, are decided without computing the power. -/
def toBinary64 (negative : Bool) (d : Decimal) : Binary64 :=
  let place := width d.digits + d.exponent
  if d.digits = 0 ∨ place < -330 then .zero negative
  else if 310 < place then .infinite negative
  else
    .ofQuotient negative (d.digits * Nat.pow 10 d.exponent.toNat * Binary64.unitsPerOne)
      (Nat.pow 10 (-d.exponent).toNat)

/-- Moves trailing zeros of the digits into the exponent, at most `fuel` of them. -/
def trimZeros : Nat → Decimal → Decimal
  | 0, d => d
  | fuel + 1, d =>
    if d.digits ≠ 0 ∧ d.digits % 10 = 0 then trimZeros fuel ⟨d.digits / 10, d.exponent + 1⟩ else d

end Decimal

/-- Where a value goes that lies in the middle of two decimals of the same length. -/
inductive Tie where
  | up
  | even
deriving DecidableEq, Repr

namespace Binary64

/-- The number of places before the decimal point of the magnitude of a positive rank; it is negative
when zeros follow the point. -/
def pointPlace (rank : Nat) : Int :=
  let units := magnitude rank
  if unitsPerOne ≤ units then Decimal.width (units / unitsPerOne)
  else 1 - (Decimal.width ((unitsPerOne - 1) / units) : Int)

/-- A point of the grid of multiples of `10 ^ exponent` that reads back as the magnitude of `rank`. -/
def gridPoint? (tie : Tie) (rank : Nat) (exponent : Int) : Option Nat :=
  let up := Nat.pow 10 (-exponent).toNat
  let step := 2 * unitsPerOne * Nat.pow 10 exponent.toNat
  let value := 2 * magnitude rank * up
  let low := (magnitude (rank - 1) + magnitude rank) * up
  let high := (magnitude rank + magnitude (rank + 1)) * up
  let readsBack (n : Nat) : Bool :=
    if rank % 2 = 0 then low ≤ n * step && n * step ≤ high
    else low < n * step && n * step < high
  let below := value / step
  let above := below + 1
  match readsBack below, readsBack above with
  | false, false => none
  | true, false => some below
  | false, true => some above
  | true, true =>
    match compare (value - below * step) (above * step - value) with
    | .lt => some below
    | .gt => some above
    | .eq =>
      match tie with
      | .up => some above
      | .even => some (if below % 2 = 0 then below else above)

/-- The first hit on the grids of `count`, `count + 1`, … digits; `fuel` bounds how many are tried. -/
def shortestFrom (tie : Tie) (rank : Nat) (count : Nat) : Nat → Decimal
  | 0 => ⟨0, 0⟩
  | fuel + 1 =>
    let exponent := pointPlace rank - count
    match gridPoint? tie rank exponent with
    | some n => Decimal.trimZeros 20 ⟨n, exponent⟩
    | none => shortestFrom tie rank (count + 1) fuel

/-- The shortest decimal that reads back as the magnitude of `rank`; seventeen digits always do. -/
def shortest (tie : Tie) (rank : Nat) : Decimal :=
  if rank = 0 then ⟨0, 0⟩ else shortestFrom tie rank 1 17

end Binary64

end TreePath
