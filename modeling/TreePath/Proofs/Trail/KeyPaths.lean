/-
# Key paths — nodes of a result behave like nodes of a document

A node of the document has its value at hand.  A node below the result of a call knows the result and finds
its value again whenever it is asked for it.  The least that such a node has to know is the result and the
keys that were taken from it: `KeyPath` is this third kind of node, which looks every key up again and takes
one that finds nothing for null.

Nodes are compared by what a trace asks of them (`NodeKind`).  Two nodes are `Alike` if they cannot be told
apart, nor can what is below them, however far their children are followed.

## How it is proved

`Alike` is about all that is below two nodes, and nodes of different kinds share no tree.  So each kind is
compared with plain values, by a relation that every child keeps (`Bisimulation`): in proper trees every kind
of node answers what its value answers.  Two such relations are joined at the value (`Bisimulation.join`), and
what a bisimulation relates is alike (`Bisimulation.alike`).

`walks_alike` is the result: from a document and from a result of the same value the same keys lead to alike
nodes, or the walks end at the same key; and so it is with the node that knows only its keys.
-/
import Mathlib.Data.List.Forall2
import TreePath.Proofs.Json.Descent
import TreePath.Proofs.Trail.Sites

namespace TreePath

/-! ## Kinds of nodes -/

/-- What a trace asks of nodes of a kind `ν`: the value, the child under a key, the children in order, and
the match that the node is behind labels. -/
structure NodeKind (ν : Type) where
  value : ν → Json
  isContainer : ν → Bool
  child? : ν → Key → Option ν
  children : ν → List (Key × ν)
  record : List Label → ν → Match

namespace NodeKind

variable {ν ν' : Type}

/-- The node that keys lead to, child by child, or else the keys from the first on that has no child. -/
def walk (kind : NodeKind ν) (node : ν) : List Key → Except (List Key) ν
  | [] => .ok node
  | key :: rest =>
    match kind.child? node key with
    | some child => kind.walk child rest
    | none => .error (key :: rest)

/-- The nodes that are related answer the same, and their children are related again.  A child that is
listed under a key is the one that the key finds. -/
structure Bisimulation (kind : NodeKind ν) (kind' : NodeKind ν') (R : ν → ν' → Prop) : Prop where
  value : ∀ a b, R a b → kind.value a = kind'.value b
  isContainer : ∀ a b, R a b → kind.isContainer a = kind'.isContainer b
  record : ∀ a b, R a b → ∀ labels, kind.record labels a = kind'.record labels b
  child? : ∀ a b, R a b → ∀ key, Option.Rel R (kind.child? a key) (kind'.child? b key)
  children : ∀ a b, R a b →
    List.Forall₂ (fun entry entry' => entry.1 = entry'.1 ∧ R entry.2 entry'.2) (kind.children a)
      (kind'.children b)
  listed : ∀ a b, R a b → ∀ entry ∈ kind.children a, kind.child? a entry.1 = some entry.2
  listed' : ∀ a b, R a b → ∀ entry ∈ kind'.children b, kind'.child? b entry.1 = some entry.2

/-- Two nodes cannot be told apart, nor can what is below them. -/
def Alike (kind : NodeKind ν) (kind' : NodeKind ν') (a : ν) (b : ν') : Prop :=
  ∃ R, Bisimulation kind kind' R ∧ R a b

/-- Two walks arrive at nodes that are related, or end at the same key. -/
inductive SameEnd (R : ν → ν' → Prop) : Except (List Key) ν → Except (List Key) ν' → Prop
  | arrived {a : ν} {b : ν'} : R a b → SameEnd R (.ok a) (.ok b)
  | lost (keys : List Key) : SameEnd R (.error keys) (.error keys)

variable {kind : NodeKind ν} {kind' : NodeKind ν'} {R : ν → ν' → Prop}

theorem Bisimulation.walk (bisimulation : Bisimulation kind kind' R) {a : ν} {b : ν'} (related : R a b)
    (keys : List Key) : SameEnd R (kind.walk a keys) (kind'.walk b keys) := by
  induction keys generalizing a b with
  | nil => exact .arrived related
  | cons key rest ih =>
      rw [NodeKind.walk, NodeKind.walk]
      have children := bisimulation.child? a b related key
      generalize kind.child? a key = child, kind'.child? b key = child' at children ⊢
      cases children with
      | none => exact .lost (key :: rest)
      | some related => exact ih related

theorem Bisimulation.alike (bisimulation : Bisimulation kind kind' R) {a : ν} {b : ν'}
    (related : R a b) (keys : List Key) :
    SameEnd (Alike kind kind') (kind.walk a keys) (kind'.walk b keys) := by
  have ends := bisimulation.walk related keys
  generalize kind.walk a keys = last, kind'.walk b keys = last' at ends ⊢
  cases ends with
  | arrived related => exact .arrived ⟨R, bisimulation, related⟩
  | lost rest => exact .lost rest

def ofValue : NodeKind Json where
  value value := value
  isContainer := Json.isContainer
  child? value key := key.child? value
  children := Json.children
  record labels value := ⟨labels, value⟩

theorem Bisimulation.join {S : ν → Json → Prop} {S' : ν' → Json → Prop}
    (first : Bisimulation kind ofValue S) (second : Bisimulation kind' ofValue S') :
    Bisimulation kind kind' fun a b => ∃ value, S a value ∧ S' b value where
  value := by
    rintro a b ⟨value, h, h'⟩
    rw [first.value a value h, second.value b value h']
  isContainer := by
    rintro a b ⟨value, h, h'⟩
    rw [first.isContainer a value h, second.isContainer b value h']
  record := by
    rintro a b ⟨value, h, h'⟩ labels
    rw [first.record a value h, second.record b value h']
  child? := by
    rintro a b ⟨value, h, h'⟩ key
    have child := first.child? a value h key
    have child' := second.child? b value h' key
    revert child child'
    generalize kind.child? a key = found, kind'.child? b key = found', ofValue.child? value key = under
    rintro (child | _) (child' | _)
    · exact .some ⟨_, child, child'⟩
    · exact .none
  children := by
    rintro a b ⟨value, h, h'⟩
    have entries := first.children a value h
    have entries' := second.children b value h'
    revert entries entries'
    generalize kind.children a = found, kind'.children b = found', ofValue.children value = under
    intro entries entries'
    induction entries generalizing found' with
    | nil =>
        cases entries'
        exact .nil
    | cons entry _ ih =>
        cases entries' with
        | cons entry' others' =>
            exact .cons ⟨entry.1.trans entry'.1.symm, _, entry.2, entry'.2⟩ (ih _ others')
  listed := by
    rintro a b ⟨value, h, -⟩
    exact first.listed a value h
  listed' := by
    rintro a b ⟨value, -, h'⟩
    exact second.listed b value h'

end NodeKind

/-! ## The nodes of a trace -/

namespace Node

open NodeKind (ofValue Bisimulation)

def kind : NodeKind Node where
  value := value
  isContainer := isContainer
  child? := child?
  children := children
  record labels node := ⟨labels, node.value⟩

theorem child?_of_listed {node child : Node} (proper : node.value.Proper) {key : Key}
    (listed : (key, child) ∈ node.children) : node.child? key = some child := by
  obtain ⟨⟨⟨_, value⟩, position⟩, mem, eq⟩ := List.mem_map.mp listed
  cases eq
  have at_position := List.mem_zipIdx_iff_getElem?.mp mem
  refine Option.bind_eq_some_iff.mpr ⟨position, proper.position?_of_listed at_position, ?_⟩
  exact Option.bind_eq_some_iff.mpr ⟨value, Json.childAt?_of_children at_position, rfl⟩

/-- Nodes answer what their values answer, of whichever tree they are. -/
theorem bisimulation :
    Bisimulation kind ofValue fun node value => node.value = value ∧ value.Proper where
  value _ _ h := h.1
  isContainer := by
    rintro node _ ⟨rfl, -⟩
    rfl
  record := by
    rintro node _ ⟨rfl, -⟩ labels
    rfl
  child? := by
    rintro node _ ⟨rfl, proper⟩ key
    have values := node.map_value_child? key
    show Option.Rel _ (node.child? key) (key.child? node.value)
    cases found : node.child? key with
    | none =>
        rw [found] at values
        rw [← values]
        exact .none
    | some child =>
        rw [found, Option.map_some] at values
        rw [← values]
        exact .some ⟨rfl, proper.child? values.symm⟩
  children := by
    rintro node _ ⟨rfl, proper⟩
    show List.Forall₂ _ node.children node.value.children
    rw [← node.map_value_children, List.forall₂_map_right_iff, List.forall₂_same]
    intro entry mem
    have listed : (entry.1, entry.2.value) ∈ node.value.children := by
      rw [← node.map_value_children]
      exact List.mem_map_of_mem mem
    exact ⟨rfl, rfl, proper.of_mem_children listed⟩
  listed := by
    rintro node _ ⟨rfl, proper⟩ entry mem
    exact child?_of_listed proper mem
  listed' := by
    rintro node _ ⟨rfl, proper⟩ entry mem
    exact proper.child?_of_listed mem

end Node

/-! ## Nodes that know their keys -/

/-- A node that knows a root and the keys that were taken from it. -/
structure KeyPath where
  root : Json
  keys : List Key

namespace KeyPath

open NodeKind (ofValue Bisimulation)

def ofRoot (root : Json) : KeyPath :=
  ⟨root, []⟩

/-- What the keys lead to from the root, each looked up in what the one before found. -/
def value? (path : KeyPath) : Option Json :=
  path.keys.foldlM (fun value key => key.child? value) path.root

def value (path : KeyPath) : Json :=
  path.value?.getD .null

def extend (path : KeyPath) (key : Key) : KeyPath :=
  ⟨path.root, path.keys ++ [key]⟩

def kind : NodeKind KeyPath where
  value := value
  isContainer path := path.value.isContainer
  child? path key := (key.child? path.value).map fun _ => path.extend key
  children path := path.value.children.map fun entry => (entry.1, path.extend entry.1)
  record labels path := ⟨labels, path.value⟩

theorem value_of_value? {path : KeyPath} {value : Json} (found : path.value? = some value) :
    path.value = value := by
  rw [KeyPath.value, found, Option.getD_some]

theorem value?_extend {path : KeyPath} {value child : Json} {key : Key}
    (found : path.value? = some value) (under : key.child? value = some child) :
    (path.extend key).value? = some child := by
  rw [value?, extend, List.foldlM_append]
  refine Option.bind_eq_some_iff.mpr ⟨value, found, ?_⟩
  rw [List.foldlM_cons, under]
  rfl

/-- As long as all keys find something, the node answers what the last of it answers. -/
theorem bisimulation :
    Bisimulation kind ofValue fun path value => path.value? = some value ∧ value.Proper where
  value path _ h := value_of_value? h.1
  isContainer path _ h := congrArg Json.isContainer (value_of_value? h.1)
  record path _ h labels := congrArg (Match.mk labels) (value_of_value? h.1)
  child? := by
    rintro path value ⟨found, proper⟩ key
    show Option.Rel _ ((key.child? path.value).map fun _ => path.extend key) (key.child? value)
    rw [value_of_value? found]
    cases under : key.child? value with
    | none => exact .none
    | some child => exact .some ⟨value?_extend found under, proper.child? under⟩
  children := by
    rintro path value ⟨found, proper⟩
    show List.Forall₂ _ (path.value.children.map _) value.children
    rw [value_of_value? found, List.forall₂_map_left_iff, List.forall₂_same]
    intro entry mem
    have under := proper.child?_of_listed mem
    exact ⟨rfl, value?_extend found under, proper.child? under⟩
  listed := by
    rintro path value ⟨found, proper⟩ _ mem
    obtain ⟨⟨key, child⟩, listed, rfl⟩ := List.mem_map.mp mem
    rw [value_of_value? found] at listed
    show (key.child? path.value).map _ = _
    rw [value_of_value? found, proper.child?_of_listed listed]
    rfl
  listed' := by
    rintro path value ⟨-, proper⟩ entry mem
    exact proper.child?_of_listed mem

end KeyPath

/-! ## The comparison -/

namespace NodeKind

/-- **Nodes of a result behave like nodes of a document.**  From a document and from a result of the same
value the same keys lead to nodes that cannot be told apart, nor can what is below them, or the walks end at
the same key.  So it is with the node that knows only the value and the keys that were taken from it. -/
theorem walks_alike {document : Json} (proper : document.Proper) (call : Nat) (keys : List Key) :
    SameEnd (Alike Node.kind Node.kind) (Node.kind.walk (.ofDocument document) keys)
        (Node.kind.walk (.ofResult call document) keys) ∧
      SameEnd (Alike Node.kind KeyPath.kind) (Node.kind.walk (.ofDocument document) keys)
        (KeyPath.kind.walk (.ofRoot document) keys) := by
  have standing : (Node.ofDocument document).value = document ∧ document.Proper := ⟨rfl, proper⟩
  constructor
  · have related : (Node.ofResult call document).value = document ∧ document.Proper := ⟨rfl, proper⟩
    exact (Node.bisimulation.join Node.bisimulation).alike ⟨document, standing, related⟩ keys
  · have related : (KeyPath.ofRoot document).value? = some document ∧ document.Proper :=
      ⟨rfl, proper⟩
    exact (Node.bisimulation.join KeyPath.bisimulation).alike ⟨document, standing, related⟩ keys

/-- The member `10` of an object is found by the position 10, its first item by the name `0`; the walk ends
where a key has no child. -/
theorem walks_alike_numeral :
    let document := Json.obj [("10", .arr [.bool true]), ("a", .null)]
    let keys := [Key.index 10, .name "0"]
    document.Proper ∧
      Node.kind.walk (.ofDocument document) keys = .ok (.placed [0, 0] (.bool true)) ∧
      Node.kind.walk (.ofResult 3 document) keys = .ok (.computed 3 document [0, 0]) ∧
      KeyPath.kind.walk (.ofRoot document) keys = .ok ⟨document, keys⟩ ∧
      Node.kind.walk (.ofResult 3 document) [.name "a", .index 0, .index 1] =
        .error [.index 0, .index 1] ∧
      SameEnd (Alike Node.kind Node.kind) (Node.kind.walk (.ofDocument document) keys)
        (Node.kind.walk (.ofResult 3 document) keys) ∧
      SameEnd (Alike Node.kind KeyPath.kind) (Node.kind.walk (.ofDocument document) keys)
        (KeyPath.kind.walk (.ofRoot document) keys) := by
  intro document keys
  have proper : document.Proper := by
    simp [document, Json.Proper, Json.ProperMembers, Json.ProperItems]
  exact ⟨proper, rfl, rfl, rfl, rfl, walks_alike proper 3 keys⟩

end NodeKind

end TreePath
