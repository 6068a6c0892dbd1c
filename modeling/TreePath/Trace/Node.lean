/-
# Node — the values that a trace visits

A node of the document knows its place there.  A node below the result of a function knows the result and its
place below it, and finds its value by going there.

Two nodes are the same if they are the same place of the document, or the same place below the same result,
whatever their values (`site`).  Results are told apart by numbers: the same function may give equal results
twice, and these are two trees.

Children of both kinds of nodes are computed alike, from the children of the value.  They are smaller
(`Node.sizeOf_children_lt`), which is what recursive descent ends by.
-/
import TreePath.Path.Key

namespace TreePath

/-- The value at a place: positions lead from each value to one of its children. -/
def Json.at? (value : Json) (place : List Nat) : Option Json :=
  place.foldlM (fun v position => v.childAt? position) value

/-- A value that a trace has reached. -/
inductive Node where
  /-- A value of the document at its place. -/
  | placed (place : List Nat) (value : Json)
  /-- The value at a place below the result of a call. -/
  | computed (call : Nat) (result : Json) (place : List Nat)
deriving Inhabited

inductive Site where
  | document (place : List Nat)
  | result (call : Nat) (place : List Nat)
deriving DecidableEq

namespace Node

def ofDocument (document : Json) : Node :=
  .placed [] document

def ofResult (call : Nat) (result : Json) : Node :=
  .computed call result []

def value : Node → Json
  | .placed _ value => value
  | .computed _ result place => (result.at? place).getD .null

def isContainer (node : Node) : Bool :=
  node.value.isContainer

def site : Node → Site
  | .placed place _ => .document place
  | .computed call _ place => .result call place

/-- The node of a child with its position and value. -/
def below (node : Node) (position : Nat) (child : Json) : Node :=
  match node with
  | .placed place _ => .placed (place ++ [position]) child
  | .computed call result place => .computed call result (place ++ [position])

/-- The child that a key names. -/
def child? (node : Node) (key : Key) : Option Node := do
  let position ← key.position? node.value
  let child ← node.value.childAt? position
  return node.below position child

/-- The children with their keys, in order. -/
def children (node : Node) : List (Key × Node) :=
  node.value.children.zipIdx.map fun ((key, child), position) => (key, node.below position child)

end Node

/-! ## Children are smaller -/

theorem Json.at?_append (value : Json) (place : List Nat) (position : Nat) :
    value.at? (place ++ [position]) = (value.at? place).bind (·.childAt? position) := by
  simp [at?, List.foldlM_append]

theorem Json.sizeOf_childAt?_lt {value child : Json} {position : Nat}
    (h : value.childAt? position = some child) : sizeOf child < sizeOf value := by
  unfold Json.childAt? at h
  split at h
  · have := List.sizeOf_lt_of_mem (List.mem_of_getElem? h)
    simp only [Json.arr.sizeOf_spec]
    omega
  · obtain ⟨member, hm, rfl⟩ := Option.map_eq_some_iff.1 h
    have := List.sizeOf_lt_of_mem (List.mem_of_getElem? hm)
    have : sizeOf member.2 < sizeOf member := by
      obtain ⟨name, v⟩ := member
      simp only [Prod.mk.sizeOf_spec]
      omega
    simp only [Json.obj.sizeOf_spec]
    omega
  · simp at h

theorem Json.childAt?_of_children {value child : Json} {key : Key} {position : Nat}
    (h : value.children[position]? = some (key, child)) : value.childAt? position = some child := by
  unfold Json.children at h
  split at h
  · simp only [List.getElem?_map, List.getElem?_zipIdx, Option.map_eq_some_iff] at h
    obtain ⟨⟨item, i⟩, ⟨found, hf, hi⟩, eq⟩ := h
    cases eq
    cases hi
    exact hf
  · simp only [List.getElem?_map, Option.map_eq_some_iff] at h
    obtain ⟨⟨name, v⟩, hm, eq⟩ := h
    cases eq
    simp [Json.childAt?, hm]
  · simp at h

/-- A child of a node has the value that was listed for it, which is smaller than that of the node. -/
theorem Node.sizeOf_children_lt {node child : Node} {key : Key}
    (h : (key, child) ∈ node.children) : sizeOf child.value < sizeOf node.value := by
  obtain ⟨⟨⟨k, v⟩, position⟩, mem, eq⟩ := List.mem_map.1 h
  cases eq
  have listed := List.mem_zipIdx_iff_getElem?.1 mem
  have found := Json.childAt?_of_children listed
  have smaller := Json.sizeOf_childAt?_lt found
  cases node with
  | placed place value => exact smaller
  | computed call result place =>
    simp only [Node.value, Node.below, Json.at?_append] at found smaller ⊢
    cases followed : result.at? place with
    | none => simp [followed, Json.childAt?] at found
    | some owner =>
      rw [followed] at found smaller
      simp only [Option.getD_some] at found
      simpa [found] using smaller

end TreePath
