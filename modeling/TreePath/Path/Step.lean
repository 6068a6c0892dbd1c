/-
# Step — one step of a path, and its token form

A path is read into steps, and a program has one operation for each step but the root.  A step has all that
the text of its bracket or member said, decoded: keys, bounds, the name of a function, and the texts of
scripts and sub-paths, which are read when the path is compiled.

A key of a list or of a single property may have been written bare or in quotes; the step does not tell,
but for the two forms of keys.

The token form (`token`) is what a step looks like when it is listed.  It is not a path: names stand without
quotes, so different steps may have the same token.
-/
import TreePath.Path.Key
import TreePath.Path.Slice

namespace TreePath

inductive Step where
  | root
  | wildcard
  | descent
  | parent
  | property (key : Key)
  | propertyList (keys : List Key)
  | slice (slice : Slice)
  /-- `[(body)]` -/
  | script (body : String)
  /-- `[?(body)]` -/
  | filter (body : String)
  /-- `name()` -/
  | function (name : String)
  /-- `[$…]`, the text of the nested path. -/
  | subPath (text : String)
deriving DecidableEq, Inhabited

namespace Step

/-- The texts of keys, separated by commas. -/
def keysText (keys : List Key) : String :=
  ",".intercalate (keys.map Key.text)

def token : Step → String
  | .root => "$"
  | .wildcard => "*"
  | .descent => ".."
  | .parent => "^"
  | .property key => key.text
  | .propertyList keys => keysText keys
  | .slice s => s.text
  | .script body => "(" ++ body ++ ")"
  | .filter body => "?(" ++ body ++ ")"
  | .function name => name ++ "()"
  | .subPath text => text

end Step

end TreePath
