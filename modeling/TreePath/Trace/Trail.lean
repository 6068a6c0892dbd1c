/-
# Trail — the histories of all branches of a trace, in one store

A frame holds a node, its label and the frame before it, and never changes.  A cursor is the newest frame of a
branch, so a branch is copied by copying its cursor, and what other branches push does not show in it.
Emitted frames are the results, in order.

Frames are only added.  The frame before a frame has a smaller number, and `chainFrom` relies on it: it
follows the frames of a branch down to the first, by recursion on the number, and would stop where the numbers
did not go down.  That they always do is proved in `Proofs/Trail/Sites`.

The root is the only frame without one before it, and a branch cannot go back from it (`parent?`).
-/
import TreePath.Path.Label
import TreePath.Trace.Node

namespace TreePath

/-- One entry of a history. -/
structure Frame where
  node : Node
  label : Label
  parent : Option Nat
deriving Inhabited

/-- A branch: its newest frame, if it has one, and the index of its next instruction. -/
structure Cursor where
  head : Option Nat
  step : Nat
deriving DecidableEq, Inhabited

namespace Cursor

def start : Cursor :=
  ⟨none, 0⟩

def advance (c : Cursor) : Cursor :=
  { c with step := c.step + 1 }

end Cursor

/-- A result: the labels from the root to a node, and its value. -/
structure Match where
  labels : List Label
  value : Json
deriving Inhabited

/-- The canonical path of a result. -/
def Match.path (m : Match) : String :=
  Label.render m.labels

/-- The frames of all branches, and the results. -/
structure Trail where
  frames : Array Frame
  results : Array Nat
deriving Inhabited

namespace Trail

def empty : Trail :=
  ⟨#[], #[]⟩

def push (t : Trail) (c : Cursor) (node : Node) (label : Label) : Cursor × Trail :=
  ({ c with head := some t.frames.size }, { t with frames := t.frames.push ⟨node, label, c.head⟩ })

def node? (t : Trail) (c : Cursor) : Option Node :=
  (c.head.bind (t.frames[·]?)).map Frame.node

/-- The branch without its newest frame, unless that is its last. -/
def parent? (t : Trail) (c : Cursor) : Option Cursor := do
  let frame ← c.head.bind (t.frames[·]?)
  let parent ← frame.parent
  return { c with head := some parent }

/-- The frames of the branch that ends in frame `id`, the newest first.  A frame before it has a smaller
number. -/
def chainFrom (t : Trail) (id : Nat) : List Frame :=
  match t.frames[id]? with
  | none => []
  | some frame =>
    match frame.parent with
    | none => [frame]
    | some parent => frame :: (if parent < id then chainFrom t parent else [])
termination_by id

/-- The frames of a branch, the newest first. -/
def chain (t : Trail) (c : Cursor) : List Frame :=
  match c.head with
  | none => []
  | some id => t.chainFrom id

/-- Whether a node is on a branch. -/
def onChain (t : Trail) (c : Cursor) (node : Node) : Bool :=
  (t.chain c).any (·.node.site = node.site)

def labels (t : Trail) (c : Cursor) : List Label :=
  ((t.chain c).map Frame.label).reverse

/-- The canonical path of a branch, with further labels at its end. -/
def path (t : Trail) (c : Cursor) (further : List Label) : String :=
  Label.render (t.labels c ++ further)

/-- Makes the current node of a branch a result. -/
def emit (t : Trail) (c : Cursor) : Trail :=
  match c.head with
  | none => t
  | some id => { t with results := t.results.push id }

def records (t : Trail) : List Match :=
  t.results.toList.filterMap fun id =>
    (t.frames[id]?).map fun frame => ⟨t.labels ⟨some id, 0⟩, frame.node.value⟩

end Trail

end TreePath
