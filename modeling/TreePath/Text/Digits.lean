/-
# Digits — decimal and hexadecimal numerals

Positions, slices, messages and the codes of characters are written with these.  A numeral is a list of
characters, the first digit first.

* `decimal` and `signedDecimal` write numbers, without leading zeros.
* `ofDigits` reads decimal digits, by a fold that knows nothing of where the digits come from.
* `ofHex?` and `hex` are for codes of characters: digits of either case are read, and small ones are written.
-/
namespace TreePath.Text

/-- The decimal numeral of `n`, without leading zeros. -/
def decimal (n : Nat) : String :=
  String.ofList (Nat.toDigits 10 n)

def signedDecimal (n : Int) : String :=
  if n < 0 then "-" ++ decimal n.natAbs else decimal n.natAbs

def digitValue (c : Char) : Nat :=
  c.toNat - '0'.toNat

/-- The number that a sequence of decimal digits denotes. -/
def ofDigits (digits : List Char) : Nat :=
  digits.foldl (fun n c => 10 * n + digitValue c) 0

/-- The value of a hexadecimal digit in either case. -/
def hexValue? (c : Char) : Option Nat :=
  if '0' ≤ c ∧ c ≤ '9' then some (c.toNat - '0'.toNat)
  else if 'a' ≤ c ∧ c ≤ 'f' then some (c.toNat - 'a'.toNat + 10)
  else if 'A' ≤ c ∧ c ≤ 'F' then some (c.toNat - 'A'.toNat + 10)
  else none

/-- The number that a nonempty sequence of hexadecimal digits denotes. -/
def ofHex? : List Char → Option Nat
  | [] => none
  | digits => digits.foldlM (fun n c => (hexValue? c).map (16 * n + ·)) 0

def hex (n : Nat) : List Char :=
  Nat.toDigits 16 n

end TreePath.Text
