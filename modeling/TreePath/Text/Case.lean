/-
# Case — lower-case and upper-case forms of a text

Every character has a form of one or several characters, taken from the case tables: an expansion if it has
one, else the run that covers it, else the character itself.

The capital sigma is the one character whose lower-case form depends on its neighbours.  It is final when a
cased character stands before it and none after it, case-ignorable characters skipped on both sides.  So
lower-casing goes through a text with what is before the point that it has reached, the nearest first
(`lowerAfter`).
-/
import TreePath.Text.CaseTable

namespace TreePath.Text

/-- The code points that `code` maps to: its expansion, else the run that covers it, else itself. -/
def caseForm (expansions : List (Nat × List Nat)) (runs : List CaseRun) (code : Nat) : List Nat :=
  match expansions.lookup code with
  | some form => form
  | none => [(runs.findSome? fun run => run.map? code).getD code]

/-- The lower-case form of a character that stands alone. -/
def lowerForm (c : Char) : List Char :=
  (caseForm lowerExpansions lowerRuns c.toNat).map Char.ofNat

def upperForm (c : Char) : List Char :=
  (caseForm upperExpansions upperRuns c.toNat).map Char.ofNat

/-- Whether the first character that is not case-ignorable is cased. -/
def meetsCased (text : List Char) : Bool :=
  match text.dropWhile caseIgnorableRanges.covers with
  | [] => false
  | c :: _ => casedRanges.covers c

/-- Lower-cases `text`, which follows the characters of `before`, the nearest first. -/
def lowerAfter (before : List Char) : List Char → List Char
  | [] => []
  | c :: rest =>
    let form :=
      if c = 'Σ' then
        if meetsCased before && !meetsCased rest then ['ς'] else ['σ']
      else lowerForm c
    form ++ lowerAfter (c :: before) rest

def lowercase (text : String) : String :=
  String.ofList (lowerAfter [] text.toList)

def uppercase (text : String) : String :=
  String.ofList (text.toList.flatMap upperForm)

end TreePath.Text
