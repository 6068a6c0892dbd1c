/-
# Quoted — text between double quotes in which every character is visible

This is how texts are shown when the structure of a program is described, for readers who want to see what
exactly is in them.

* A quote and a backslash get a backslash.
* The tab, the line ends and the null have short forms.
* Every other character that has no visible form, or that joins the one before it, is written as its code
  point in braces.

It is no format that is read again.  Strings of documents are written by `Json/Writer`, and names in paths by
`Path/Label`.
-/
import TreePath.Text.Digits
import TreePath.Text.PrintTable

namespace TreePath.Text

/-- Whether `c` is seen, and seen by itself. -/
def isVisible (c : Char) : Bool :=
  !graphemeExtendRanges.covers c && !unprintableRanges.covers c

def visible (c : Char) : List Char :=
  match c with
  | '"' => ['\\', '"']
  | '\\' => ['\\', '\\']
  | '\n' => ['\\', 'n']
  | '\r' => ['\\', 'r']
  | '\t' => ['\\', 't']
  | '\x00' => ['\\', '0']
  | c => if isVisible c then [c] else ['\\', 'u', '\x7b'] ++ hex c.toNat ++ ['\x7d']

def quoted (text : String) : String :=
  "\"" ++ String.ofList (text.toList.flatMap visible) ++ "\""

end TreePath.Text
