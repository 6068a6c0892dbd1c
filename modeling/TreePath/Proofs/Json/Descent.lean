/-
# Descent — the order in which recursive descent meets the nodes of a tree

Recursive descent visits the containers of a tree and shows all children of each.  Here is the list of
places that this makes, without any program: `containerPlaces` are the containers, and `descentPlaces` their
children, container by container.

`descent_descentPlaces` says what can be said of the order.  Every node but the root is met once; before the
nodes below it; and the children of one node come one after the other, in the order of the container.  These
are the fields of `Descent`.

The proofs are by induction on the tree.  That nothing is met twice and nothing out of order is one fact,
about pairs of places (`pairwise_childPlaces`, `pairwise_descentPlaces`), and being met once follows.

The last section is for paths that go on with a key: among the children of a node a key leads to one at most
(`filter_childPlaces`), also where it can be written in several ways.
-/
import Mathlib.Data.List.Induction
import TreePath.Proofs.Json.Places

namespace TreePath

namespace Json

/-! ## Places that children lead to -/

/-- The keys that the values on the way to a place are listed under. -/
def keysTo (value : Json) : List Nat → List Key
  | [] => []
  | position :: rest =>
    match value.children[position]? with
    | some (key, child) => key :: child.keysTo rest
    | none => []

theorem childAt?_eq (value : Json) (position : Nat) :
    value.childAt? position = (value.children[position]?).map Prod.snd := by
  cases value with
  | arr items => simp [childAt?, children, Function.comp_def]
  | obj members => simp [childAt?, children, Function.comp_def]
  | null | bool _ | num _ | str _ => rfl

theorem at?_cons_eq_some_iff {value last : Json} {position : Nat} {rest : List Nat} :
    value.at? (position :: rest) = some last ↔
      ∃ key child, value.children[position]? = some (key, child) ∧ child.at? rest = some last := by
  show (value.childAt? position).bind (·.at? rest) = _ ↔ _
  rw [childAt?_eq, Option.bind_map, Option.bind_eq_some_iff]
  exact Prod.exists

theorem Proper.of_mem_children {value : Json} (proper : value.Proper) {entry : Key × Json}
    (mem : entry ∈ value.children) : entry.2.Proper := by
  obtain ⟨position, listed⟩ := List.mem_iff_getElem?.mp mem
  exact proper.childAt? (childAt?_of_children listed)

theorem keysTo_cons {value child : Json} {position : Nat} {key : Key}
    (listed : value.children[position]? = some (key, child)) (rest : List Nat) :
    value.keysTo (position :: rest) = key :: child.keysTo rest := by
  rw [keysTo, listed]

theorem keysTo_concat {root value child : Json} {place : List Nat} {position : Nat} {key : Key}
    (found : root.at? place = some value) (listed : value.children[position]? = some (key, child)) :
    root.keysTo (place ++ [position]) = root.keysTo place ++ [key] := by
  induction place generalizing root with
  | nil =>
      cases found
      exact keysTo_cons listed []
  | cons first rest ih =>
      obtain ⟨key', child', isListed, found⟩ := at?_cons_eq_some_iff.mp found
      rw [List.cons_append, keysTo_cons isListed, keysTo_cons isListed, ih found, List.cons_append]

theorem Proper.eq_of_keysTo {root : Json} {place place' : List Nat} {value value' : Json}
    (proper : root.Proper) (found : root.at? place = some value)
    (found' : root.at? place' = some value')
    (same : root.keysTo place = root.keysTo place') : place = place' := by
  induction place generalizing root place' with
  | nil =>
      cases place' with
      | nil => rfl
      | cons position rest =>
          obtain ⟨_, _, listed, _⟩ := at?_cons_eq_some_iff.mp found'
          rw [keysTo_cons listed] at same
          cases same
  | cons position rest ih =>
      obtain ⟨key, child, listed, found⟩ := at?_cons_eq_some_iff.mp found
      cases place' with
      | nil =>
          rw [keysTo_cons listed] at same
          cases same
      | cons position' rest' =>
          obtain ⟨key', child', listed', found'⟩ := at?_cons_eq_some_iff.mp found'
          rw [keysTo_cons listed, keysTo_cons listed'] at same
          obtain ⟨rfl, _⟩ := List.cons.inj same
          have named := proper.position?_of_listed listed
          rw [proper.position?_of_listed listed'] at named
          cases named
          rw [listed] at listed'
          cases listed'
          have childProper : child.Proper := proper.of_mem_children (List.mem_of_getElem? listed)
          rw [ih childProper found found' (List.cons.inj same).2]

/-- The place itself, and the places of all containers below, each before what is below it. -/
def containerPlaces (value : Json) : List (List Nat) :=
  [] :: value.children.zipIdx.attach.flatMap fun ⟨entry, _⟩ =>
    if entry.1.2.isContainer then entry.1.2.containerPlaces.map (entry.2 :: ·) else []
termination_by sizeOf value
decreasing_by
  rename_i mem _
  exact sizeOf_childAt?_lt (childAt?_of_children (List.mem_zipIdx_iff_getElem?.mp mem))

def containerPlacesIn (position : Nat) (child : Json) : List (List Nat) :=
  if child.isContainer then child.containerPlaces.map (position :: ·) else []

theorem containerPlaces_eq (value : Json) :
    value.containerPlaces =
      [] :: value.children.zipIdx.flatMap fun entry => containerPlacesIn entry.2 entry.1.2 := by
  let places : (Key × Json) × Nat → List (List Nat) :=
    fun entry => containerPlacesIn entry.2 entry.1.2
  have below : value.children.zipIdx.attach.flatMap (fun entry => places entry.val) =
      value.children.zipIdx.flatMap places := by
    rw [← List.flatMap_map, List.attach_map_subtype_val]
  rw [containerPlaces.eq_def]
  exact congrArg ([] :: ·) below

theorem mem_containerPlacesIn_iff {position : Nat} {child : Json} {place : List Nat} :
    place ∈ containerPlacesIn position child ↔
      child.isContainer = true ∧ ∃ rest ∈ child.containerPlaces, place = position :: rest := by
  rw [containerPlacesIn]
  split
  · rename_i container
    rw [List.mem_map, and_iff_right container]
    exact exists_congr fun rest => and_congr_right fun _ => eq_comm
  · rename_i scalar
    exact iff_of_false List.not_mem_nil fun h => scalar h.1

theorem isContainer_of_childAt? {value child : Json} {position : Nat}
    (found : value.childAt? position = some child) : value.isContainer = true := by
  cases value with
  | arr _ | obj _ => rfl
  | null | bool _ | num _ | str _ => cases found

theorem children_of_scalar {value : Json} (scalar : value.isContainer = false) :
    value.children = [] := by
  cases value with
  | arr _ | obj _ => cases scalar
  | null | bool _ | num _ | str _ => rfl

theorem mem_containerPlaces_iff {value : Json} {place : List Nat} :
    place ∈ value.containerPlaces ↔
      place = [] ∨ ∃ owner, value.at? place = some owner ∧ owner.isContainer = true := by
  induction place generalizing value with
  | nil =>
      rw [containerPlaces_eq]
      exact iff_of_true List.mem_cons_self (.inl rfl)
  | cons position rest ih =>
      rw [containerPlaces_eq, List.mem_cons, List.mem_flatMap]
      constructor
      · rintro (⟨⟨⟩⟩ | ⟨⟨⟨key, child⟩, i⟩, listed, mem⟩)
        obtain ⟨container, _, mem, eq⟩ := mem_containerPlacesIn_iff.mp mem
        obtain ⟨rfl, rfl⟩ := List.cons.inj eq
        have listed := List.mem_zipIdx_iff_getElem?.mp listed
        rcases ih.mp mem with rfl | ⟨owner, found, owner_container⟩
        · exact .inr ⟨child, at?_cons_eq_some_iff.mpr ⟨key, child, listed, rfl⟩, container⟩
        · exact .inr
            ⟨owner, at?_cons_eq_some_iff.mpr ⟨key, child, listed, found⟩, owner_container⟩
      · rintro (⟨⟨⟩⟩ | ⟨owner, found, container⟩)
        obtain ⟨key, child, listed, found⟩ := at?_cons_eq_some_iff.mp found
        refine .inr ⟨((key, child), position), List.mem_zipIdx_iff_getElem?.mpr listed,
          mem_containerPlacesIn_iff.mpr
            ⟨?_, rest, ih.mpr (.inr ⟨owner, found, container⟩), rfl⟩⟩
        cases rest with
        | nil =>
            cases found
            exact container
        | cons next rest =>
            obtain ⟨_, second, _⟩ := Option.bind_eq_some_iff.mp found
            exact isContainer_of_childAt? second

/-- Containers are met before those below them, and once. -/
theorem pairwise_containerPlaces (value : Json) :
    value.containerPlaces.Pairwise fun place later => ¬ later <+: place := by
  induction size : sizeOf value using Nat.strongRecOn generalizing value with
  | _ size ih =>
      subst size
      rw [containerPlaces_eq, List.pairwise_cons, List.pairwise_flatMap]
      refine ⟨?_, ?_, ?_⟩
      · intro place mem prefixes
        obtain ⟨_, _, mem⟩ := List.mem_flatMap.mp mem
        obtain ⟨_, _, _, rfl⟩ := mem_containerPlacesIn_iff.mp mem
        cases List.prefix_nil.mp prefixes
      · rintro ⟨⟨key, child⟩, position⟩ listed
        have found := childAt?_of_children (List.mem_zipIdx_iff_getElem?.mp listed)
        rw [containerPlacesIn]
        split
        · refine List.pairwise_map.mpr ((ih _ (sizeOf_childAt?_lt found) child rfl).imp ?_)
          intro place later apart prefixes
          exact apart (List.cons_prefix_cons.mp prefixes).2
        · exact .nil
      · have positions : (value.children.zipIdx.map Prod.snd).Nodup := by
          rw [List.zipIdx_map_snd]
          exact List.nodup_range'
        refine (List.pairwise_map.mp positions).imp ?_
        intro entry entry' ne place mem later mem' prefixes
        obtain ⟨_, _, _, rfl⟩ := mem_containerPlacesIn_iff.mp mem
        obtain ⟨_, _, _, rfl⟩ := mem_containerPlacesIn_iff.mp mem'
        exact ne (List.cons_prefix_cons.mp prefixes).1.symm

/-! ## All nodes below the root -/

/-- The places of the children of the value at a place. -/
def childPlaces (document : Json) (place : List Nat) : List (List Nat) :=
  match document.at? place with
  | some owner => (List.range owner.children.length).map fun position => place ++ [position]
  | none => []

/-- The places of the children of every container, container by container. -/
def descentPlaces (document : Json) : List (List Nat) :=
  document.containerPlaces.flatMap document.childPlaces

/-- The places are those of all nodes but the root, each once and before those of the nodes below it;
those of the children of one node are next to each other and in order. -/
structure Descent (document : Json) (places : List (List Nat)) : Prop where
  nodup : places.Nodup
  mem_iff : ∀ place, place ∈ places ↔ place ≠ [] ∧ ∃ value, document.at? place = some value
  before : places.Pairwise fun place later => ¬ later <+: place
  siblings : ∀ owner value, document.at? owner = some value →
    (List.range value.children.length).map (fun position => owner ++ [position]) <:+: places

variable {document : Json}

theorem mem_childPlaces_iff {owner place : List Nat} :
    place ∈ document.childPlaces owner ↔
      ∃ position, place = owner ++ [position] ∧ ∃ value, document.at? place = some value := by
  constructor
  · intro mem
    rw [childPlaces] at mem
    split at mem
    · rename_i value found
      obtain ⟨position, inside, rfl⟩ := List.mem_map.mp mem
      have inside := List.mem_range.mp inside
      refine ⟨position, rfl, value.children[position].2, ?_⟩
      rw [at?_append, found, Option.bind_some, childAt?_eq, List.getElem?_eq_getElem inside]
      rfl
    · cases mem
  · rintro ⟨position, rfl, child, found⟩
    rw [at?_append] at found
    obtain ⟨value, found, isChild⟩ := Option.bind_eq_some_iff.mp found
    rw [childAt?_eq] at isChild
    obtain ⟨_, listed, _⟩ := Option.map_eq_some_iff.mp isChild
    rw [childPlaces, found]
    exact List.mem_map_of_mem (List.mem_range.mpr (List.getElem?_eq_some_iff.mp listed).1)

theorem pairwise_childPlaces (owner : List Nat) :
    (document.childPlaces owner).Pairwise fun place later => ¬ later <+: place := by
  rw [childPlaces]
  split
  · refine List.pairwise_map.mpr (List.pairwise_lt_range.imp ?_)
    intro position next lt prefixes
    rw [List.prefix_append_right_inj, List.cons_prefix_cons] at prefixes
    exact Nat.ne_of_gt lt prefixes.1
  · exact .nil

theorem pairwise_descentPlaces (document : Json) :
    document.descentPlaces.Pairwise fun place later => ¬ later <+: place := by
  refine List.pairwise_flatMap.mpr
    ⟨fun owner _ => pairwise_childPlaces owner, document.pairwise_containerPlaces.imp ?_⟩
  intro owner next apart place mem later mem' prefixes
  obtain ⟨position, rfl, _⟩ := mem_childPlaces_iff.mp mem
  obtain ⟨position', rfl, _⟩ := mem_childPlaces_iff.mp mem'
  rcases List.prefix_concat_iff.mp prefixes with same | above
  · exact apart ((List.append_inj' same rfl).1 ▸ List.prefix_rfl)
  · exact apart ((List.prefix_append next [position']).trans above)

theorem mem_descentPlaces_iff {place : List Nat} : place ∈ document.descentPlaces ↔
    place ≠ [] ∧ ∃ value, document.at? place = some value := by
  rw [descentPlaces, List.mem_flatMap]
  constructor
  · rintro ⟨owner, _, mem⟩
    obtain ⟨position, rfl, found⟩ := mem_childPlaces_iff.mp mem
    exact ⟨by simp, found⟩
  · rintro ⟨notRoot, value, found⟩
    cases place using List.reverseRecOn with
    | nil => exact absurd rfl notRoot
    | append_singleton owner position =>
        refine ⟨owner, ?_, mem_childPlaces_iff.mpr ⟨position, rfl, value, found⟩⟩
        rw [at?_append] at found
        obtain ⟨above, found, isChild⟩ := Option.bind_eq_some_iff.mp found
        exact mem_containerPlaces_iff.mpr (.inr ⟨above, found, isContainer_of_childAt? isChild⟩)

theorem childPlaces_infix {owner : List Nat} (met : owner ∈ document.containerPlaces) :
    document.childPlaces owner <:+: document.descentPlaces := by
  obtain ⟨before, after, eq⟩ := List.append_of_mem met
  refine ⟨before.flatMap document.childPlaces, after.flatMap document.childPlaces, ?_⟩
  rw [descentPlaces, eq, List.flatMap_append, List.flatMap_cons, List.append_assoc]

theorem descent_descentPlaces (document : Json) : document.Descent document.descentPlaces where
  nodup := document.pairwise_descentPlaces.imp fun apart same => by
    rw [same] at apart
    exact apart List.prefix_rfl
  mem_iff := fun _ => mem_descentPlaces_iff
  before := document.pairwise_descentPlaces
  siblings := by
    intro owner value found
    cases container : value.isContainer with
    | true =>
        have met : owner ∈ document.containerPlaces :=
          mem_containerPlaces_iff.mpr (.inr ⟨value, found, container⟩)
        have infixes := childPlaces_infix met
        rw [childPlaces, found] at infixes
        exact infixes
    | false =>
        rw [children_of_scalar container]
        exact List.nil_infix

/-! ## Nodes that a key leads to -/

/-- Whether a key leads from the parent of a place to the place. -/
def ledTo (document : Json) (key : Key) (place : List Nat) : Bool :=
  match place.getLast? with
  | some position => (document.at? place.dropLast).bind key.position? = some position
  | none => false

theorem exists_listed_of_position? {value : Json} {key : Key} {position : Nat}
    (named : key.position? value = some position) :
    ∃ key' child, value.children[position]? = some (key', child) := by
  obtain ⟨child, isAt⟩ := exists_childAt?_of_position? named
  rw [childAt?_eq] at isAt
  obtain ⟨⟨key', _⟩, listed, rfl⟩ := Option.map_eq_some_iff.mp isAt
  exact ⟨key', _, listed⟩

/-- Among the children of a node, a key leads to one at most. -/
theorem filter_childPlaces (key : Key) (owner : List Nat) :
    (document.childPlaces owner).filter (document.ledTo key) =
      (((document.at? owner).bind key.position?).toList).map fun position => owner ++ [position] := by
  have led : document.ledTo key ∘ (fun position => owner ++ [position]) =
      fun position => decide ((document.at? owner).bind key.position? = some position) := by
    funext position
    rw [Function.comp_apply, ledTo, List.getLast?_concat, List.dropLast_concat]
  rw [childPlaces]
  cases found : document.at? owner with
  | none => rfl
  | some value =>
      rw [List.filter_map, led, found, Option.bind_some]
      cases named : key.position? value with
      | none => simp
      | some position =>
          obtain ⟨_, _, listed⟩ := exists_listed_of_position? named
          have inside : position < value.children.length := (List.getElem?_eq_some_iff.mp listed).1
          simp only [Option.some_inj, eq_comm (a := position)]
          rw [List.filter_eq, List.count_range, if_pos inside]
          rfl

end Json

end TreePath
