/-
# Output — how matches are presented

A match is presented as its value or as its path (`project`).  What becomes of the presented matches depends
on how many there are and on the options (`ofMatches`):

* without a match there is nothing, or an empty sequence if lone matches are to be wrapped;
* a lone match that is not an array stands alone, unless it is to be wrapped;
* all else is a sequence, in which array values may give their items (`expand`).

`Output.toList` forgets which of these it is, and `toJson` is the result as a document.

`Program.evaluate` and `query` are the library as its callers see it: the first presents by the options of a
program, the second always gives the values in an array.
-/
import TreePath.Program.Compile
import TreePath.Trace.Run

namespace TreePath

inductive Matched where
  | value (value : Json)
  | path (text : String)
deriving Inhabited

/-- The JSON form of a presented match. -/
def Matched.toJson : Matched → Json
  | .value v => v
  | .path text => .str text

/-- The result of an evaluation. -/
inductive Output where
  | nothing
  | single (matched : Matched)
  | sequence (items : List Matched)
deriving Inhabited

namespace Output

/-- Presents a match. -/
def project (resultType : ResultType) (m : Match) : Matched :=
  match resultType with
  | .value => .value m.value
  | .path => .path m.path

/-- The items that a presented match gives. -/
def expand (flatten : Bool) (m : Matched) : List Matched :=
  match flatten, m with
  | true, .value (.arr items) => items.map .value
  | _, m => [m]

/-- Presents matches in a sequence. -/
def inSequence (options : Options) (found : List Match) : Output :=
  .sequence (found.flatMap fun m => expand options.flatten (project options.resultType m))

/-- Presents matches. -/
def ofMatches (options : Options) (found : List Match) : Output :=
  match found with
  | [] => if options.wrap.enabled then .sequence [] else .nothing
  | [m] =>
    if !options.wrap.enabled && !m.value.isArray then .single (project options.resultType m)
    else inSequence options [m]
  | several => inSequence options several

/-- The JSON form of a result. -/
def toJson : Output → Json
  | .nothing => .null
  | .single m => m.toJson
  | .sequence items => .arr (items.map Matched.toJson)

def toList : Output → List Matched
  | .nothing => []
  | .single m => [m]
  | .sequence items => items

end Output

/-- The result of a program in a document.  Functions that were not bound are taken from the context. -/
def Program.evaluate (program : Program) (document : Json) (context : Option Registry) :
    Except Fault Output :=
  (program.records document context).map (Output.ofMatches program.options)

/-- The values that an expression selects in a document, as an array. -/
def query (expression : String) (document : Json) : Except Fault Json := do
  let program ← Program.compile expression { Options.default with wrap := .always }
  return (← program.evaluate document none).toJson

end TreePath
