/-
# Reordering — trees that differ in the order of the members of objects

`Json.Reordered` relates values that differ at most in the order of members, at any depth.  Such trees have
the same children under the same keys, although not at the same positions (`Reordered.children`).  So a key
that leads to a child in one leads in the other to a child that is listed under the same key.

* `Twin` is for proper values; `Twin.child?` is the look-up of a key in both.
* `TwinAt` follows the twins down from the roots of two trees, along the keys that children are listed under.

Places differ between the two trees, since they count positions.  `TwinAt.place_eq_iff` is what is left of
them: two nodes of one tree are the same exactly if their counterparts in the other are.
-/
import TreePath.Proofs.Json.Descent
import TreePath.Proofs.Permutation

namespace TreePath

/-- The values differ at most in the order of the members of objects, at any depth. -/
inductive Json.Reordered : Json → Json → Prop
  | scalar {value : Json} : value.isContainer = false → Json.Reordered value value
  | arr {items items' : List Json} : List.Forall₂ Json.Reordered items items' →
      Json.Reordered (.arr items) (.arr items')
  | obj {members between members' : List (String × Json)} : members.Perm between →
      between.map Prod.fst = members'.map Prod.fst →
      List.Forall₂ Json.Reordered (between.map Prod.snd) (members'.map Prod.snd) →
      Json.Reordered (.obj members) (.obj members')

/-- Proper values that differ at most in the order of members. -/
structure Json.Twin (value value' : Json) : Prop where
  reordered : value.Reordered value'
  proper : value.Proper
  proper' : value'.Proper

/-- Entries with the same key and related values. -/
def Json.SameKey {κ : Type} (R : Json → Json → Prop) (entry entry' : κ × Json) : Prop :=
  entry.1 = entry'.1 ∧ R entry.2 entry'.2

namespace Json

variable {value value' : Json}

theorem Reordered.isContainer (h : value.Reordered value') :
    value.isContainer = value'.isContainer := by
  cases h <;> rfl

theorem children_rel_of_items {items items' : List Json}
    (h : List.Forall₂ Reordered items items') (position : Nat) :
    List.Forall₂ (SameKey Reordered)
      ((items.zipIdx position).map fun (item, i) => (Key.index i, item))
      ((items'.zipIdx position).map fun (item, i) => (Key.index i, item)) := by
  induction h generalizing position with
  | nil => exact .nil
  | cons first _ ih => exact .cons ⟨rfl, first⟩ (ih (position + 1))

theorem children_rel_of_members {members members' : List (String × Json)}
    (names : members.map Prod.fst = members'.map Prod.fst)
    (h : List.Forall₂ Reordered (members.map Prod.snd) (members'.map Prod.snd)) :
    List.Forall₂ (SameKey Reordered)
      (members.map fun (name, value) => (Key.name name, value))
      (members'.map fun (name, value) => (Key.name name, value)) := by
  induction members generalizing members' with
  | nil =>
      cases List.map_eq_nil_iff.mp names.symm
      exact .nil
  | cons member rest ih =>
      cases members' with
      | nil => cases names
      | cons member' rest' =>
          obtain ⟨name, names⟩ := List.cons.inj names
          cases h with
          | cons first others => exact .cons ⟨congrArg Key.name name, first⟩ (ih names others)

theorem Reordered.children (h : value.Reordered value') :
    Permuted (SameKey Reordered) value.children value'.children := by
  cases h with
  | scalar scalar =>
      rw [children_of_scalar scalar]
      exact .nil
  | arr items => exact .of_forall₂ (children_rel_of_items items 0)
  | obj perm names values => exact ⟨_, perm.map _, children_rel_of_members names values⟩

theorem Twin.children (twin : value.Twin value') :
    Permuted (SameKey Twin) value.children value'.children :=
  twin.reordered.children.imp_of_mem fun _ mem _ mem' same =>
    ⟨same.1, same.2, twin.proper.of_mem_children mem, twin.proper'.of_mem_children mem'⟩

theorem Reordered.kind (h : value.Reordered value') : value.kind = value'.kind := by
  cases h <;> rfl

theorem exists_of_position? (kind : value.kind = value'.kind) (proper : value.Proper)
    (proper' : value'.Proper) {R : Json → Json → Prop}
    (children : Permuted (SameKey R) value.children value'.children)
    {key : Key} {position : Nat} (named : key.position? value = some position) :
    ∃ position' listed child child', key.position? value' = some position' ∧
      value.children[position]? = some (listed, child) ∧
      value'.children[position']? = some (listed, child') ∧ R child child' := by
  obtain ⟨listed, child, isListed⟩ := exists_listed_of_position? named
  obtain ⟨⟨_, child'⟩, mem, rfl, related⟩ :=
    children.exists_of_mem (List.mem_of_getElem? isListed)
  obtain ⟨position', isListed'⟩ := List.mem_iff_getElem?.mp mem
  refine ⟨position', listed, child, child', ?_, isListed, isListed', related⟩
  rw [Key.position?_eq_of_named kind.symm named (proper.position?_of_listed isListed)]
  exact proper'.position?_of_listed isListed'

/-- A key leads to children that are listed under the same key and are twins, or to none. -/
inductive SamePosition (key : Key) (value value' : Json) : Prop
  | none : key.position? value = none → key.position? value' = none → SamePosition key value value'
  | some {position position' : Nat} {listed : Key} {child child' : Json} :
      key.position? value = some position → key.position? value' = some position' →
      value.children[position]? = some (listed, child) →
      value'.children[position']? = some (listed, child') → child.Twin child' →
      SamePosition key value value'

theorem Twin.samePosition (twin : value.Twin value') (key : Key) :
    SamePosition key value value' := by
  have kind := twin.reordered.kind
  cases named : key.position? value with
  | some position =>
      obtain ⟨position', listed, child, child', named', isListed, isListed', both⟩ :=
        exists_of_position? kind twin.proper twin.proper' twin.children named
      exact .some named named' isListed isListed' both
  | none =>
      refine .none named ?_
      cases named' : key.position? value' with
      | none => rfl
      | some position' =>
          -- what the key finds in the twin is listed here too, so the key would find it
          have back : Permuted (SameKey fun child' child => child.Twin child')
              value'.children value.children :=
            twin.children.flip.imp_of_mem fun _ _ _ _ same => ⟨same.1.symm, same.2⟩
          obtain ⟨_, _, _, _, found, _⟩ :=
            exists_of_position? kind.symm twin.proper' twin.proper back named'
          rw [named] at found
          cases found

theorem Twin.child? (twin : value.Twin value') (key : Key) :
    Option.Rel Twin (key.child? value) (key.child? value') := by
  cases twin.samePosition key with
  | none named named' =>
      rw [Key.child?, Key.child?, named, named']
      exact .none
  | some named named' isListed isListed' both =>
      rw [Key.child?, Key.child?, named, named', Option.bind_some, Option.bind_some,
        childAt?_of_children isListed, childAt?_of_children isListed']
      exact .some both

/-! ## Places in twins -/

/-- Twins that are found in two trees where the same listed keys lead. -/
structure TwinAt (root root' : Json) (place place' : List Nat) (value value' : Json) : Prop where
  found : root.at? place = some value
  found' : root'.at? place' = some value'
  keys : root.keysTo place = root'.keysTo place'
  twin : value.Twin value'

theorem Twin.here (twin : value.Twin value') : TwinAt value value' [] [] value value' :=
  ⟨rfl, rfl, rfl, twin⟩

variable {root root' child child' : Json} {place place' : List Nat} {position position' : Nat}

theorem TwinAt.below (h : TwinAt root root' place place' value value') {key : Key}
    (listed : value.children[position]? = some (key, child))
    (listed' : value'.children[position']? = some (key, child')) (twin : child.Twin child') :
    TwinAt root root' (place ++ [position]) (place' ++ [position']) child child' where
  found := by
    rw [at?_append, h.found]
    exact childAt?_of_children listed
  found' := by
    rw [at?_append, h.found']
    exact childAt?_of_children listed'
  keys := by rw [keysTo_concat h.found listed, keysTo_concat h.found' listed', h.keys]
  twin := twin

/-- As a key is listed once, two places are the same in one tree exactly if they are in the other. -/
theorem TwinAt.place_eq_iff (roots : root.Twin root')
    (h : TwinAt root root' place place' value value') {other other' : List Nat}
    (h' : TwinAt root root' other other' child child') : place = other ↔ place' = other' := by
  constructor
  · rintro rfl
    exact roots.proper'.eq_of_keysTo h.found' h'.found' (h.keys.symm.trans h'.keys)
  · rintro rfl
    exact roots.proper.eq_of_keysTo h.found h'.found (h.keys.trans h'.keys.symm)

end Json

end TreePath
