/-
# Places — where keys lead in a tree

A place is a list of positions, counted in each container from zero.  Keys lead to places, and several keys
can lead to the same one.

In a proper tree the key that a child is listed under leads to that child (`Proper.position?_of_listed`): the
names of an object are distinct, and the positions of an array have one numeral each.  So a sequence of
keys, each listed or looked up, has one place, `placeFrom?`.

Conversely, keys that lead to the same child have the same text (`text_eq_of_position?`), and lead to the
same child in every other value of that kind.  That is what lets a canonical path stand for the keys as
they were written.
-/
import TreePath.Proofs.Text.Numerals
import TreePath.Trace.Node

namespace TreePath

namespace Json

/-! ## Proper trees -/

theorem proper_of_mem_items {items : List Json} (h : ProperItems items) {item : Json}
    (mem : item ∈ items) : item.Proper := by
  induction items with
  | nil => cases mem
  | cons first rest ih =>
      rcases List.mem_cons.mp mem with rfl | mem
      · exact h.1
      · exact ih h.2 mem

theorem proper_of_mem_members {members : List (String × Json)} (h : ProperMembers members)
    {member : String × Json} (mem : member ∈ members) : member.2.Proper := by
  induction members with
  | nil => cases mem
  | cons first rest ih =>
      rcases List.mem_cons.mp mem with rfl | mem
      · exact h.1
      · exact ih h.2 mem

theorem Proper.childAt? {value child : Json} (h : value.Proper) {position : Nat}
    (found : value.childAt? position = some child) : child.Proper := by
  simp only [Json.childAt?] at found
  split at found
  · exact proper_of_mem_items h.2 (List.mem_of_getElem? found)
  · obtain ⟨member, named, rfl⟩ := Option.map_eq_some_iff.mp found
    exact proper_of_mem_members h.2 (List.mem_of_getElem? named)
  · cases found

theorem Proper.child? {value child : Json} (h : value.Proper) {key : Key}
    (found : key.child? value = some child) : child.Proper := by
  obtain ⟨position, _, found⟩ := Option.bind_eq_some_iff.mp found
  exact h.childAt? found

theorem Proper.at? {value child : Json} (h : value.Proper) {place : List Nat}
    (found : value.at? place = some child) : child.Proper := by
  induction place generalizing value with
  | nil =>
      cases found
      exact h
  | cons position rest ih =>
      obtain ⟨next, first, found⟩ := Option.bind_eq_some_iff.mp found
      exact ih (h.childAt? first) found

/-! ## Keys and positions -/

theorem exists_childAt?_of_position? {value : Json} {key : Key} {position : Nat}
    (h : key.position? value = some position) : ∃ child, value.childAt? position = some child := by
  simp only [Key.position?] at h
  split at h
  · obtain ⟨_, inside⟩ := Option.filter_eq_some_iff.mp h
    have lt := of_decide_eq_true inside
    exact ⟨_, List.getElem?_eq_getElem lt⟩
  · obtain ⟨lt, _⟩ := List.findIdx?_eq_some_iff_findIdx_eq.mp h
    refine ⟨_, Option.map_eq_some_iff.mpr ⟨_, List.getElem?_eq_getElem lt, rfl⟩⟩
  · cases h

/-- The key that a child is listed under leads to that child. -/
theorem Proper.position?_of_listed {value child : Json} (h : value.Proper) {key : Key}
    {position : Nat} (listed : value.children[position]? = some (key, child)) :
    key.position? value = some position := by
  simp only [Json.children] at listed
  split at listed
  · simp only [List.getElem?_map, List.getElem?_zipIdx, Option.map_eq_some_iff] at listed
    obtain ⟨_, ⟨item, found, rfl⟩, eq⟩ := listed
    cases eq
    have lt := (List.getElem?_eq_some_iff.mp found).1
    rw [Key.position?, Key.index?, Nat.zero_add]
    exact Option.filter_eq_some_iff.mpr ⟨rfl, decide_eq_true lt⟩
  · rename_i members
    simp only [List.getElem?_map, Option.map_eq_some_iff] at listed
    obtain ⟨⟨name, _⟩, found, eq⟩ := listed
    cases eq
    obtain ⟨lt, member⟩ := List.getElem?_eq_some_iff.mp found
    rw [Key.position?, List.findIdx?_eq_some_iff_getElem]
    refine ⟨lt, by rw [member]; exact decide_eq_true rfl, ?_⟩
    intro j earlier same
    have names := of_decide_eq_true same
    have inside : j < (members.map Prod.fst).length := by
      rw [List.length_map]
      omega
    have twice : (members.map Prod.fst)[j]? = (members.map Prod.fst)[position]? := by
      have before : j < members.length := by omega
      rw [List.getElem?_map, List.getElem?_map, found, List.getElem?_eq_getElem before]
      exact congrArg some names
    have := (List.getElem?_inj inside h.1).mp twice
    omega
  · cases listed

theorem Proper.child?_of_listed {value child : Json} (h : value.Proper) {key : Key}
    (listed : (key, child) ∈ value.children) : key.child? value = some child := by
  obtain ⟨position, found⟩ := List.mem_iff_getElem?.mp listed
  rw [Key.child?, h.position?_of_listed found]
  exact childAt?_of_children found

/-! ## Sequences of keys -/

/-- The place that a sequence of keys leads to from a place. -/
def placeFrom? (document : Json) (place : List Nat) (keys : List Key) : Option (List Nat) :=
  keys.foldlM (fun place key => do
    let owner ← document.at? place
    let position ← key.position? owner
    return place ++ [position]) place

variable {document : Json}

theorem placeFrom?_cons_eq_some_iff {place last : List Nat} {key : Key} {keys : List Key} :
    document.placeFrom? place (key :: keys) = some last ↔
      ∃ owner position, document.at? place = some owner ∧ key.position? owner = some position ∧
        document.placeFrom? (place ++ [position]) keys = some last := by
  rw [placeFrom?, List.foldlM_cons]
  constructor
  · intro h
    obtain ⟨next, first, h⟩ := Option.bind_eq_some_iff.mp h
    obtain ⟨owner, found, first⟩ := Option.bind_eq_some_iff.mp first
    obtain ⟨position, named, first⟩ := Option.bind_eq_some_iff.mp first
    cases first
    exact ⟨owner, position, found, named, h⟩
  · rintro ⟨owner, position, found, named, h⟩
    refine Option.bind_eq_some_iff.mpr ⟨_, Option.bind_eq_some_iff.mpr ⟨owner, found, ?_⟩, h⟩
    exact Option.bind_eq_some_iff.mpr ⟨position, named, rfl⟩

theorem placeFrom?_concat {place : List Nat} {key : Key} {keys : List Key} :
    document.placeFrom? place (keys ++ [key]) =
      (document.placeFrom? place keys).bind fun place => document.placeFrom? place [key] := by
  rw [placeFrom?, List.foldlM_append]
  rfl

end Json

/-! ## Keys for the same child -/

namespace Key

theorem text_of_index? {key : Key} {position : Nat} (denotes : key.index? = some position) :
    key.text = Text.decimal position := by
  cases key with
  | index _ =>
      cases denotes
      rfl
  | name name =>
      rw [text, ← String.toList_inj, Text.toList_decimal]
      exact (canonicalIndex?_eq_some_iff.mp denotes).1

/-- Keys that lead to the same child have the same text. -/
theorem text_eq_of_position? {key key' : Key} {value : Json} {position : Nat}
    (named : key.position? value = some position) (named' : key'.position? value = some position) :
    key.text = key'.text := by
  cases value with
  | arr items =>
      obtain ⟨denotes, _⟩ := Option.filter_eq_some_iff.mp named
      obtain ⟨denotes', _⟩ := Option.filter_eq_some_iff.mp named'
      rw [text_of_index? denotes, text_of_index? denotes']
  | obj members =>
      obtain ⟨_, name, _⟩ := List.findIdx?_eq_some_iff_getElem.mp named
      obtain ⟨_, name', _⟩ := List.findIdx?_eq_some_iff_getElem.mp named'
      rw [← of_decide_eq_true name, ← of_decide_eq_true name']
  | null | bool _ | num _ | str _ => cases named

/-- Keys that lead to the same child lead to the same child in every value of that kind. -/
theorem position?_eq_of_named {key key' : Key} {value value' : Json} {position : Nat}
    (kind : value'.kind = value.kind) (named : key.position? value = some position)
    (named' : key'.position? value = some position) :
    key.position? value' = key'.position? value' := by
  cases value with
  | arr items =>
      obtain ⟨denotes, _⟩ := Option.filter_eq_some_iff.mp named
      obtain ⟨denotes', _⟩ := Option.filter_eq_some_iff.mp named'
      cases value' with
      | arr items' => rw [Key.position?, Key.position?, denotes, denotes']
      | obj _ | null | bool _ | num _ | str _ => cases kind
  | obj members =>
      cases value' with
      | obj members' => rw [Key.position?, Key.position?, text_eq_of_position? named named']
      | arr _ | null | bool _ | num _ | str _ => cases kind
  | null | bool _ | num _ | str _ => cases named

end Key

end TreePath
