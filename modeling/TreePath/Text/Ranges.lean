/-
# Ranges — sets of characters given as ranges of code points

The properties of Unicode that the library asks for are large sets of characters.  They are kept as lists of
ranges with both ends included, and `Ranges.covers` looks a character up.

White space is such a set, and so are the letters with a case, the characters that do not interrupt a word,
and those that cannot be seen or that join the one before them.

The look-up goes through the list from the front.  Texts are short, so nothing cleverer is needed, and a set
that is written out can be compared with its source line by line.
-/
namespace TreePath.Text

/-- A set of characters, as ranges of code points with both ends included. -/
abbrev Ranges := List (Nat × Nat)

def Ranges.covers (ranges : Ranges) (c : Char) : Bool :=
  ranges.any fun range => range.1 ≤ c.toNat && c.toNat ≤ range.2

end TreePath.Text
