/-
# Binary64 arithmetic — each result is the exact one, rounded once

Scripts compute with double-precision numbers.  `Binary64/Basic` has the numbers as signs and ranks;
here are the operations on them.

* `add`, `sub`, `mul` and `div` compute the exact result as a fraction of integers and round it once, with
  `ofQuotient`.  No operation rounds an intermediate result.
* Zeros keep their signs: a product's sign is the product of the signs, and a sum that cancels is positive
  unless both terms are negative zeros.
* `rem` is exact: the remainder of the division that truncates toward zero, with the sign of the dividend.
* The order is that of the values, so both zeros are equal.  The undefined number stands in no order and
  equals nothing, itself included: `compare?` has no result there.
* `floor`, `ceil` and `round` differ only in what they do with a magnitude that is not whole, and are one
  function, `toWhole`, of that choice.
-/
import TreePath.Binary64.Basic

namespace TreePath.Binary64

def neg : Binary64 → Binary64
  | .nan => .nan
  | .infinite negative => .infinite !negative
  | .finite negative rank => .finite (!negative) rank

def abs : Binary64 → Binary64
  | .nan => .nan
  | .infinite _ => .infinite false
  | .finite _ rank => .finite false rank

def add : Binary64 → Binary64 → Binary64
  | .nan, _ => .nan
  | _, .nan => .nan
  | .infinite s, .infinite t => if s = t then .infinite s else .nan
  | .infinite s, .finite _ _ => .infinite s
  | .finite _ _, .infinite t => .infinite t
  | .finite s a, .finite t b =>
    let sum := signed s (magnitude a) + signed t (magnitude b)
    if sum = 0 then zero (s && t) else ofQuotient (sum < 0) sum.natAbs 1

def sub (x y : Binary64) : Binary64 :=
  x.add y.neg

/-- The product; zero times infinity has none. -/
def mul : Binary64 → Binary64 → Binary64
  | .nan, _ => .nan
  | _, .nan => .nan
  | .infinite s, .infinite t => .infinite (s != t)
  | .infinite s, .finite t b => if b.val = 0 then .nan else .infinite (s != t)
  | .finite s a, .infinite t => if a.val = 0 then .nan else .infinite (s != t)
  | .finite s a, .finite t b => ofQuotient (s != t) (magnitude a * magnitude b) unitsPerOne

/-- The quotient; a nonzero number divided by zero is infinite. -/
def div : Binary64 → Binary64 → Binary64
  | .nan, _ => .nan
  | _, .nan => .nan
  | .infinite _, .infinite _ => .nan
  | .infinite s, .finite t _ => .infinite (s != t)
  | .finite s _, .infinite t => zero (s != t)
  | .finite s a, .finite t b =>
    if b.val = 0 then
      if a.val = 0 then .nan else .infinite (s != t)
    else ofQuotient (s != t) (magnitude a * unitsPerOne) (magnitude b)

/-- The remainder of the division that truncates toward zero; it has the sign of the dividend. -/
def rem : Binary64 → Binary64 → Binary64
  | .nan, _ => .nan
  | _, .nan => .nan
  | .infinite _, _ => .nan
  | .finite s a, .infinite _ => .finite s a
  | .finite s a, .finite _ b =>
    if b.val = 0 then .nan else ofQuotient s (magnitude a % magnitude b) 1

/-- The order of two numbers, if both are defined. -/
def compare? : Binary64 → Binary64 → Option Ordering
  | .nan, _ => none
  | _, .nan => none
  | .infinite s, .infinite t =>
    some (if s = t then .eq else if s then .lt else .gt)
  | .infinite s, .finite _ _ => some (if s then .lt else .gt)
  | .finite _ _, .infinite t => some (if t then .gt else .lt)
  | .finite s a, .finite t b => some (compare (signed s a) (signed t b))

def equal (x y : Binary64) : Bool :=
  compare? x y == some .eq

/-- Applies a rounding of magnitudes to whole ones; `round s units` is told the sign. -/
def toWhole (round : Bool → Nat → Nat) : Binary64 → Binary64
  | .finite s a => ofQuotient s (round s (magnitude a) * unitsPerOne) 1
  | x => x

/-- The whole number of ones below or at a magnitude. -/
def wholeBelow (units : Nat) : Nat := units / unitsPerOne

/-- The whole number of ones above or at a magnitude. -/
def wholeAbove (units : Nat) : Nat := (units + (unitsPerOne - 1)) / unitsPerOne

/-- The largest whole number that is not above. -/
def floor : Binary64 → Binary64 :=
  toWhole fun s units => if s then wholeAbove units else wholeBelow units

/-- The smallest whole number that is not below. -/
def ceil : Binary64 → Binary64 :=
  toWhole fun s units => if s then wholeBelow units else wholeAbove units

/-- The nearest whole number, a half going away from zero. -/
def round : Binary64 → Binary64 :=
  toWhole fun _ units => (2 * units + unitsPerOne) / (2 * unitsPerOne)

end TreePath.Binary64
