/-
# Run — the matches of a program in a document

A trace follows the instructions of a program.  An instruction with one successor goes on with it; one with
several goes on with each in turn, so results come in document order, a node before what is below it.  Keys
that find nothing end their branch.  Scripts and functions can fail, and the first failure ends the trace.

## Form

What goes on with a branch is a function (`Next`), and an instruction is given it.  So a program runs by
structural recursion on its instructions, and the trail is threaded through: no work list is kept, and a
branch is finished before the next one is begun.

The program of a sub-path runs in the document on a trail of its own; from its matches only the keys are
taken (`keysOf`).
-/
import TreePath.Program.Basic
import TreePath.Trace.Trail

namespace TreePath

namespace Trace

/-- What goes on with a branch. -/
abbrev Next := Cursor → Trail → Except Fault Trail

def proceed (next : Next) (c : Cursor) (t : Trail) (label : Label) (node : Node) :
    Except Fault Trail :=
  let (below, t) := t.push c node label
  next below.advance t

def fanOut (next : Next) (c : Cursor) (t : Trail) (successors : List (Key × Node)) :
    Except Fault Trail :=
  successors.foldlM (fun t (key, child) => proceed next c t (.key key) child) t

/-- Goes on with the node itself, then with every container below it, each before what is below it.  A
node that is already on the branch is passed over. -/
def descend (next : Next) (node : Node) (c : Cursor) (t : Trail) : Except Fault Trail := do
  let t ← next c.advance t
  node.children.attach.foldlM (fun t ⟨(key, child), mem⟩ =>
    if !child.isContainer || t.onChain c child then return t
    else
      have := Node.sizeOf_children_lt mem
      let (below, t) := t.push c child (.key key)
      descend next child below t) t
termination_by sizeOf node.value

/-- The children that a list of keys finds, in the order of the keys. -/
def select (node : Node) (keys : List Key) : List (Key × Node) :=
  keys.filterMap fun key => (node.child? key).map fun child => (key, child)

/-- Goes on with the child under a key, if there is one. -/
def follow (next : Next) (node : Node) (c : Cursor) (t : Trail) (key : Key) : Except Fault Trail :=
  match node.child? key with
  | some child => proceed next c t (.key key) child
  | none => .ok t

/-- The candidates that a script holds of.  The script sees the path of the candidate. -/
def survivors (script : Script) (t : Trail) (c : Cursor) :
    List (Key × Node) → Except Fault (List (Key × Node))
  | [] => .ok []
  | (key, child) :: rest => do
    let path := if script.usesPath then some (t.path c [.key key]) else none
    let holds ← script.test child.value path
    let others ← survivors script t c rest
    return if holds then (key, child) :: others else others

/-- The function that a step calls: the bound one, else the one in the context. -/
def resolve (context : Option Registry) (name : String) (bound : Option Func) : Except Fault Func :=
  match bound.or (context.bind (·.find? name)) with
  | some f => .ok f
  | none => .error (.unresolved name)

/-- The keys that matches of a sub-path stand for: an array gives those of its items. -/
def keysOf (records : List Match) : List Key :=
  records.flatMap fun m =>
    match m.value with
    | .arr items => items.filterMap Key.ofScalar?
    | value => (Key.ofScalar? value).toList

/-- The positions that a slice selects of an array, as keys; it selects nothing of other values. -/
def sliceKeys (slice : Slice) : Json → List Key
  | .arr items => (slice.indices items.length).map .index
  | _ => []

end Trace

section
variable (document : Json) (context : Option Registry)

open Trace

mutual

/-- Runs an operation at a branch and goes on with its successors. -/
def Op.run (op : Op) (next : Next) : Next := fun c t =>
  let node := (t.node? c).getD (.ofDocument document)
  match op with
  | .start => proceed next { c with head := none } t .root (.ofDocument document)
  | .emit => .ok (t.emit c)
  | .property key => follow next node c t key
  | .wildcard => fanOut next c t node.children
  | .descent => descend next node c t
  | .parent =>
    match t.parent? c with
    | some above => next above.advance t
    | none => .ok t
  | .properties keys => fanOut next c t (select node keys)
  | .slice slice => fanOut next c t (select node (sliceKeys slice node.value))
  | .script script => do
    let path := if script.usesPath then some (t.path c []) else none
    follow next node c t (← script.key node.value path)
  | .filter script => do
    fanOut next c t (← survivors script t c node.children)
  | .function name bound => do
    let f ← resolve context name bound
    let value ← f.apply node.value
    proceed next c t (.call (name ++ "()")) (.ofResult t.frames.size value)
  | .subPath nested => do
    fanOut next c t (select node (keysOf (← nested.records)))

def Instruction.run (i : Instruction) (next : Next) : Next :=
  match i with
  | ⟨op, _⟩ => op.run next

def Program.runCode : List Instruction → Next
  | [] => fun _ t => .ok t
  | i :: rest => i.run (Program.runCode rest)

def Program.records (program : Program) : Except Fault (List Match) :=
  match program with
  | ⟨_, _, code, _, _⟩ => do
    let t ← Program.runCode code .start .empty
    return t.records

end

end

end TreePath
