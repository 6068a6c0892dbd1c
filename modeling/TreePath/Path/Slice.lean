/-
# Slice — arithmetic selections of array positions

A slice walks from its start to its end by its step.  A bound below zero counts from the end of the array,
and every bound is clamped to the array; with a step below zero the walk goes backwards.  A start or an end
that is absent is the one at which the walk covers the array.

Bounds and steps are signed words of 64 bits, and the sums of the walk are not: a walk that would leave
the words ends there, since no position lies beyond.  `ascend` and `descend` are the two walks, each by
recursion on the distance that is left, so that they end for every step but zero.

A step of zero selects nothing here.  Paths cannot have one, since the scan refuses it.
-/
import TreePath.Text.Digits

namespace TreePath

/-- The selection `start:end:step`. -/
structure Slice where
  start : Option Int
  stop : Option Int
  step : Option Int
deriving DecidableEq, Inhabited

namespace Slice

def minWord : Int := -(1 <<< 63 : Nat)

def maxWord : Int := (1 <<< 63 : Nat) - 1

/-- The positions `i`, `i + step`, … below `stop`. -/
def ascend (step : Int) (positive : 0 < step) (stop i : Int) : List Nat :=
  if i < stop then
    i.toNat :: (if i + step ≤ maxWord then ascend step positive stop (i + step) else [])
  else []
termination_by (stop - i).toNat

/-- The positions `i`, `i + step`, … above `stop`. -/
def descend (step : Int) (negative : step < 0) (stop i : Int) : List Nat :=
  if stop < i then
    i.toNat :: (if minWord ≤ i + step then descend step negative stop (i + step) else [])
  else []
termination_by (i - stop).toNat

/-- A bound of an ascending walk over `length` items. -/
def clampUp (length bound : Int) : Int :=
  if bound < 0 then max (bound + length) 0 else min bound length

/-- A bound of a descending walk over `length` items. -/
def clampDown (length bound : Int) : Int :=
  if bound < 0 then max (bound + length) (-1) else min bound (length - 1)

/-- The positions selected from `count` items, in the order of the walk.  A step of zero selects none. -/
def indices (s : Slice) (count : Nat) : List Nat :=
  let length : Int := min count maxWord
  let step := s.step.getD 1
  if positive : 0 < step then
    ascend step positive (clampUp length (s.stop.getD length)) (clampUp length (s.start.getD 0))
  else if negative : step < 0 then
    descend step negative ((s.stop.map (clampDown length)).getD (-1))
      ((s.start.map (clampDown length)).getD (length - 1))
  else []

def boundText (bound : Option Int) : String :=
  (bound.map Text.signedDecimal).getD ""

/-- The text of a slice: the second colon is written only before a step. -/
def text (s : Slice) : String :=
  boundText s.start ++ ":" ++ boundText s.stop ++
    (match s.step with
     | none => ""
     | some step => ":" ++ Text.signedDecimal step)

end Slice

end TreePath
