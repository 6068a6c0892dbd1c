/-
# Binary64 — double-precision numbers, computed exactly

A finite number is a sign and the rank of its magnitude: how many magnitudes lie below it.  Ranks order the
magnitudes, neighbours have neighbouring ranks, and an even rank is an even significand.

Every magnitude is a whole number of units of 2⁻¹⁰⁷⁴.  So each operation can compute its exact result in
integers, and round once with `ofQuotient` to the nearest number, a tie going to the even rank.

## Why ranks

The order of floats, their neighbours and the tie rule are what the rest of the library asks for, and all
three are immediate of ranks: no exponent has to be compared, and there is no normal form to be kept.  Bits
are not modelled.  Of undefined numbers there is one, since no result of the program tells them apart.

`magnitude` goes from a rank to units.  `nearestRank` goes back, by cutting the quotient to 53 significant
bits and counting the binades that were skipped.
-/
namespace TreePath

namespace Binary64

abbrev binadeSize : Nat := 1 <<< 52

abbrev rankCount : Nat := 2047 * binadeSize

/-- How many units of 2⁻¹⁰⁷⁴ make one. -/
def unitsPerOne : Nat := 1 <<< 1074

end Binary64

/-- A double-precision number; the undefined number has one form. -/
inductive Binary64 where
  | nan
  | infinite (negative : Bool)
  | finite (negative : Bool) (rank : Fin Binary64.rankCount)
deriving DecidableEq, Inhabited

namespace Binary64

/-- The magnitude of rank `rank` in units of 2⁻¹⁰⁷⁴, with the gap between neighbours doubling from
each binade to the next, the first two apart. -/
def magnitude (rank : Nat) : Nat :=
  let binade := rank / binadeSize
  let fraction := rank % binadeSize
  if binade = 0 then fraction else (binadeSize + fraction) <<< (binade - 1)

/-- The quotient `num / den` rounded to the nearest integer, a half to the even one. -/
def divNearestEven (num den : Nat) : Nat :=
  let quotient := num / den
  let rest := num % den
  if 2 * rest < den then quotient
  else if den < 2 * rest then quotient + 1
  else if quotient % 2 = 0 then quotient
  else quotient + 1

/-- The rank nearest to `num / den` units: the quotient is cut to 53 significant bits, and as many
binades are skipped as bits were cut. -/
def nearestRank (num den : Nat) : Nat :=
  let cut := (num / den).log2 - 52
  cut * binadeSize + divNearestEven num (den <<< cut)

/-- The number nearest to `num / den` units, infinite above the largest finite magnitude. -/
def ofQuotient (negative : Bool) (num den : Nat) : Binary64 :=
  let rank := nearestRank num den
  if h : rank < rankCount then .finite negative ⟨rank, h⟩ else .infinite negative

def zero (negative : Bool) : Binary64 :=
  .finite negative ⟨0, by decide⟩

/-- The number nearest to a natural number. -/
def ofNat (n : Nat) : Binary64 :=
  ofQuotient false (n * unitsPerOne) 1

/-- The number nearest to an integer. -/
def ofInt (n : Int) : Binary64 :=
  ofQuotient (n < 0) (n.natAbs * unitsPerOne) 1

/-- A magnitude with its sign. -/
def signed (negative : Bool) (magnitude : Nat) : Int :=
  if negative then -magnitude else magnitude

def isFinite : Binary64 → Bool
  | .finite _ _ => true
  | _ => false

def isZero : Binary64 → Bool
  | .finite _ rank => rank.val = 0
  | _ => false

/-- The integer a number is equal to, if it is integral. -/
def toInt? : Binary64 → Option Int
  | .finite negative rank =>
    if magnitude rank % unitsPerOne = 0 then
      some (signed negative (magnitude rank / unitsPerOne))
    else none
  | _ => none

end Binary64

end TreePath
