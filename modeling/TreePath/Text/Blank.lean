/-
# Blank — white space, and trimming it off both ends of a text

A character is blank when it has the Unicode property `White_Space`.  `trim` removes the blank characters at
both ends and nothing else.

Paths, bare tokens, options and the text of numbers are all trimmed with this one function.  Scripts and
documents have fewer blanks between their lexemes than this, and predicates of their own (`isGap`).

The property is a table of ranges of code points, as the other properties of Unicode are.
-/
import TreePath.Text.Ranges

namespace TreePath.Text

/-- The property `White_Space`. -/
def blankRanges : Ranges :=
  [(9, 13), (32, 32), (133, 133), (160, 160), (5760, 5760), (8192, 8202), (8232, 8233),
   (8239, 8239), (8287, 8287), (12288, 12288)]

def isBlank (c : Char) : Bool :=
  blankRanges.covers c

def trimRight (text : List Char) : List Char :=
  (text.reverse.dropWhile isBlank).reverse

def trim (text : List Char) : List Char :=
  trimRight (text.dropWhile isBlank)

end TreePath.Text
