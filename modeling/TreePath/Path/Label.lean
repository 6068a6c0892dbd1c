/-
# Label — the entries of a traced location, and its canonical path

A location is a list of labels, from the root down: the root itself, a key for each step to a child, and the
name of each function whose result was taken.

A canonical path is `$` followed by one fragment for each further label:

| label | fragment |
| :-- | :-- |
| a key that is an array position, in either form | `[n]` |
| any other key | `['name']`, quotes and backslashes escaped |
| a call | `.f()` |

Keys of both forms for one child have one fragment.  Only quotes and backslashes are escaped, so a line feed
in a name stands in the path as it is.
-/
import TreePath.Path.Key

namespace TreePath

inductive Label where
  | root
  | key (key : Key)
  /-- A call, as it was written: `f()`. -/
  | call (text : String)
deriving DecidableEq, Inhabited

namespace Label

/-- One character of a name in single quotes. -/
def escapeName (c : Char) : List Char :=
  if c = '\\' ∨ c = '\'' then ['\\', c] else [c]

def quoteName (name : String) : String :=
  "'" ++ String.ofList (name.toList.flatMap escapeName) ++ "'"

/-- The fragment of the canonical path for this label. -/
def fragment : Label → String
  | .root => "$"
  | .call text => "." ++ text
  | .key k => if k.index?.isSome then "[" ++ k.text ++ "]" else "[" ++ quoteName k.text ++ "]"

/-- The canonical path of a location, given root first. -/
def render (labels : List Label) : String :=
  String.join (labels.map fragment)

end Label

end TreePath
