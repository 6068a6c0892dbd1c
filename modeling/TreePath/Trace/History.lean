/-
# History — traces with a history for each branch

The same programs, run without a store: a branch owns the list of its labels and values, an operation takes a
history to the list of its successors (`Op.successors`), and a program goes on with each in turn
(`Program.runHistory`).  Recursive descent is the list of all containers below a value; nothing is passed
over.

This evaluator says what a path means.  It is not the one that runs: every branch copies what it goes on
from.  That the two have the same records is proved in `Proofs/Trail/Refinement`, and almost everything that
is proved of matches is proved of histories.

Nodes do not occur here.  A history has values, and two equal values at different places are not told apart;
where it matters which node was found, `Proofs/Trail/Places` has the sites.
-/
import TreePath.Trace.Run

namespace TreePath

/-- The labels and values of a branch, the newest first. -/
abbrev History := List (Label × Json)

namespace History

def value (document : Json) : History → Json
  | [] => document
  | (_, value) :: _ => value

def labels (h : History) : List Label :=
  (h.map Prod.fst).reverse

/-- The canonical path of a branch, with further labels at its end. -/
def path (h : History) (further : List Label) : String :=
  Label.render (h.labels ++ further)

/-- The children that a list of keys finds, on top of a branch. -/
def select (h : History) (owner : Json) (keys : List Key) : List History :=
  keys.filterMap fun key => (key.child? owner).map fun child => (.key key, child) :: h

def children (h : History) (owner : Json) : List History :=
  owner.children.map fun (key, child) => (.key key, child) :: h

mutual

/-- A branch and every container below it, each before what is below it. -/
def containers (h : History) : Json → List History
  | .arr items => h :: containersOfItems h 0 items
  | .obj members => h :: containersOfMembers h members
  | _ => [h]

/-- The containers among items, the first of them at a position, with those below. -/
def containersOfItems (h : History) (position : Nat) : List Json → List History
  | [] => []
  | item :: rest =>
    (if item.isContainer then containers ((.key (.index position), item) :: h) item else [])
      ++ containersOfItems h (position + 1) rest

def containersOfMembers (h : History) : List (String × Json) → List History
  | [] => []
  | (name, value) :: rest =>
    (if value.isContainer then containers ((.key (.name name), value) :: h) value else [])
      ++ containersOfMembers h rest

end

def survivors (script : Script) (document : Json) :
    List History → Except Fault (List History)
  | [] => .ok []
  | h :: rest => do
    let path := if script.usesPath then some (h.path []) else none
    let holds ← script.test (h.value document) path
    let others ← survivors script document rest
    return if holds then h :: others else others

end History

section
variable (document : Json) (context : Option Registry)

open Trace

mutual

/-- The successors of a branch under an operation. -/
def Op.successors (op : Op) (h : History) : Except Fault (List History) :=
  let owner := h.value document
  match op with
  | .start => .ok [[(.root, document)]]
  | .emit => .ok []
  | .property key => .ok (h.select owner [key])
  | .wildcard => .ok (h.children owner)
  | .descent => .ok (h.containers owner)
  | .parent =>
    match h with
    | _ :: above :: rest => .ok [above :: rest]
    | _ => .ok []
  | .properties keys => .ok (h.select owner keys)
  | .slice slice => .ok (h.select owner (sliceKeys slice owner))
  | .script script => do
    let path := if script.usesPath then some (h.path []) else none
    return h.select owner [← script.key owner path]
  | .filter script => History.survivors script document (h.children owner)
  | .function name bound => do
    let f ← resolve context name bound
    return [(.call (name ++ "()"), ← f.apply owner) :: h]
  | .subPath nested => do return h.select owner (keysOf (← nested.recordsByHistory))

/-- The matches that a branch leads to under a sequence of instructions. -/
def Program.runHistory : List Instruction → History → Except Fault (List Match)
  | [] => fun _ => .ok []
  | ⟨op, _⟩ :: rest => fun h =>
    match op with
    | .emit => .ok (if h.isEmpty then [] else [⟨h.labels, h.value document⟩])
    | op => do
      let successors ← op.successors h
      return (← successors.mapM (Program.runHistory rest)).flatten

/-- The matches of a program, by histories. -/
def Program.recordsByHistory (program : Program) : Except Fault (List Match) :=
  match program with
  | ⟨_, _, code, _, _⟩ => Program.runHistory code []

end

end

end TreePath
