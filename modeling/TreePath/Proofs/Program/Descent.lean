/-
# Descent — what recursive descent finds

Descent with a wildcard matches every node but the root, each once, in the order of `Json/Descent`.  Descent
with a name matches those among these nodes that the name leads to from their parents, in the same order.

`records_descent` has both, by paths and values, for every document and for names in either quotation.

The program reaches branches, and the order is about places.  `along` and `branchTo` go from places to
branches: a branch goes on to a place of its current value by the keys that are listed on the way.  That
turns the containers of the trace into the places of containers (`containers_eq_map`), and the children of
each into its child places (`children_along`).

A name may lead to a child that is listed under a position, so a match carries the name in its labels and the
node has the position.  `Key.fragment_of_position?` says that they are written alike.
-/
import TreePath.Proofs.Json.Descent
import TreePath.Proofs.Path.Canonical
import TreePath.Proofs.Program.Compiled
import TreePath.Proofs.Trail.Locality

namespace TreePath

/-- The match of the node at a place, by the keys that the values on the way are listed under. -/
def Json.matchAt? (document : Json) (place : List Nat) : Option Match :=
  (document.at? place).map fun value => ⟨.root :: (document.keysTo place).map .key, value⟩

/-! ## Branches to places -/

namespace History

def along (h : History) (value : Json) : List Nat → History
  | [] => h
  | position :: rest =>
    match value.children[position]? with
    | some (key, child) => along ((.key key, child) :: h) child rest
    | none => h

section listed

variable {value child : Json} {key : Key} {position : Nat}
  (listed : value.children[position]? = some (key, child))

include listed

theorem along_cons (h : History) (rest : List Nat) :
    h.along value (position :: rest) = along ((.key key, child) :: h) child rest := by
  rw [along, listed]

theorem along_concat {document : Json} {owner : List Nat} (found : document.at? owner = some value)
    (h : History) :
    h.along document (owner ++ [position]) = (.key key, child) :: h.along document owner := by
  induction owner generalizing document h with
  | nil =>
      cases found
      exact along_cons listed h []
  | cons i rest ih =>
      obtain ⟨_, _, first, found⟩ := Json.at?_cons_eq_some_iff.mp found
      rw [List.cons_append, along_cons first, along_cons first, ih found]

end listed

theorem labels_along (h : History) (value : Json) (place : List Nat) :
    (h.along value place).labels = h.labels ++ (value.keysTo place).map .key := by
  induction place generalizing h value with
  | nil => exact (List.append_nil _).symm
  | cons position rest ih =>
      rw [along, Json.keysTo]
      cases value.children[position]? with
      | none => exact (List.append_nil _).symm
      | some listed =>
          rw [ih, labels_cons, List.append_assoc]
          rfl

theorem value_along {document value child : Json} {h : History} (current : h.value document = value)
    {place : List Nat} (found : value.at? place = some child) :
    (h.along value place).value document = child := by
  induction place generalizing h value with
  | nil =>
      cases found
      exact current
  | cons position rest ih =>
      obtain ⟨_, _, first, found⟩ := Json.at?_cons_eq_some_iff.mp found
      rw [along_cons first]
      exact ih rfl found

/-- The containers at and below the current value of a branch are at the places of containers. -/
theorem containers_eq_map (h : History) (value : Json) :
    h.containers value = value.containerPlaces.map (h.along value) := by
  induction size : sizeOf value using Nat.strongRecOn generalizing h value with
  | _ size ih =>
      subst size
      have below : h.containersBelow value.children = value.children.zipIdx.flatMap fun entry =>
          h.containersIn entry.1.1 entry.1.2 := by
        have children : value.children = value.children.zipIdx.map Prod.fst :=
          (List.zipIdx_map_fst 0 _).symm
        exact (congrArg h.containersBelow children).trans (List.flatMap_map _ _ _)
      rw [containers_eq, Json.containerPlaces_eq, List.map_cons, List.map_flatMap, below]
      refine congrArg (h :: ·) (List.flatMap_congr ?_)
      rintro ⟨⟨key, child⟩, position⟩ mem
      have listed := List.mem_zipIdx_iff_getElem?.mp mem
      have found := Json.childAt?_of_children listed
      rw [containersIn, Json.containerPlacesIn]
      split
      · rw [ih _ (Json.sizeOf_childAt?_lt found) _ child rfl, List.map_map]
        exact List.map_congr_left fun rest _ => (along_cons listed h rest).symm
      · rfl

theorem children_along {document : Json} (h : History) {owner : List Nat} {value : Json}
    (found : document.at? owner = some value) :
    (h.along document owner).children value =
      (document.childPlaces owner).map (h.along document) := by
  rw [Json.childPlaces, found, List.map_map, children]
  refine List.ext_getElem (by simp) ?_
  intro position inside _
  rw [List.length_map] at inside
  rw [List.getElem_map, List.getElem_map, List.getElem_range]
  exact (along_concat (List.getElem?_eq_getElem inside) found h).symm

end History

/-- A name is written like the key that the child it leads to is listed under. -/
theorem Key.fragment_of_position? {name : String} {value child : Json} {key : Key} {position : Nat}
    (named : (Key.name name).position? value = some position)
    (listed : value.children[position]? = some (key, child)) :
    (Label.key (.name name)).fragment = (Label.key key).fragment := by
  cases value with
  | arr items =>
      obtain ⟨index, _⟩ := Option.filter_eq_some_iff.mp named
      simp only [Json.children, List.getElem?_map, List.getElem?_zipIdx,
        Option.map_eq_some_iff] at listed
      obtain ⟨_, ⟨item, _, rfl⟩, eq⟩ := listed
      cases eq
      rw [Nat.zero_add]
      have decimal : name = Text.decimal position := by
        rw [← String.toList_inj, Text.toList_decimal]
        exact (canonicalIndex?_eq_some_iff.mp index).1
      rw [Label.fragment, Label.fragment, index, text, decimal]
      rfl
  | obj members =>
      obtain ⟨inside, same, _⟩ := List.findIdx?_eq_some_iff_getElem.mp named
      simp only [Json.children, List.getElem?_map, List.getElem?_eq_getElem inside,
        Option.map_some, Option.some_inj] at listed
      obtain ⟨rfl, -⟩ := Prod.mk.inj listed
      rw [of_decide_eq_true same]
      rfl
  | null | bool _ | num _ | str _ => cases named

namespace Program

variable {document : Json} {context : Option Registry} {source : String} {steps : List Step}
  {options : Options}

/-- The branch of a document that goes on to a place. -/
def branchTo (document : Json) (place : List Nat) : History :=
  History.along [(.root, document)] document place

theorem value_branchTo {place : List Nat} {value : Json} (found : document.at? place = some value) :
    (branchTo document place).value document = value :=
  History.value_along (h := [(.root, document)]) rfl found

theorem matchAt?_eq {place : List Nat} {value : Json} (found : document.at? place = some value) :
    document.matchAt? place = some ((branchTo document place).toMatch document) := by
  rw [Json.matchAt?, found, History.toMatch, value_branchTo found, branchTo, History.labels_along]
  rfl

theorem reached_descent : reached document context [.descent] [(.root, document)] =
    .ok (document.containerPlaces.map (branchTo document)) := by
  have ends : ∀ hs : List History,
      hs.mapM (reached document context []) = .ok (hs.map fun h => [h]) := fun hs => List.mapM_pure
  refine reached_cons_eq_ok_iff.mpr ⟨_, _, rfl, ends _, ?_⟩
  rw [← List.flatMap_def, List.flatMap_singleton']
  exact (History.containers_eq_map _ document).symm

theorem exists_of_mem_containerPlaces {owner : List Nat} (mem : owner ∈ document.containerPlaces) :
    ∃ value, document.at? owner = some value := by
  rcases Json.mem_containerPlaces_iff.mp mem with rfl | ⟨value, found, _⟩
  · exact ⟨document, rfl⟩
  · exact ⟨value, found⟩

theorem records_descent_wildcard :
    (assemble source steps options [.descent, .wildcard]).records document context =
      .ok (document.descentPlaces.map fun place => (branchTo document place).toMatch document) := by
  rw [← List.singleton_append, records_concat (by simp) reached_descent,
    History.runAll_flatMap fun h _ => answer_wildcard h, List.flatMap_map, Json.descentPlaces,
    List.map_flatMap]
  refine congrArg Except.ok (List.flatMap_congr fun owner mem => ?_)
  obtain ⟨value, found⟩ := exists_of_mem_containerPlaces mem
  rw [value_branchTo found, branchTo, History.children_along _ found, List.map_map]
  rfl

theorem records_descent_name (name : String) : ∃ found,
    (assemble source steps options [.descent, .property (.name name)]).records document context =
      .ok found ∧
    found.map (fun m => (m.path, m.value)) =
      (document.descentPlaces.filter (document.ledTo (.name name))).map fun place =>
        let m := (branchTo document place).toMatch document
        (m.path, m.value) := by
  rw [← List.singleton_append, records_concat (by simp) reached_descent,
    History.runAll_flatMap fun h _ => answer_property_emit _ h]
  refine ⟨_, rfl, ?_⟩
  rw [List.flatMap_map, Json.descentPlaces, List.filter_flatMap, List.map_flatMap, List.map_flatMap]
  refine List.flatMap_congr fun owner mem => ?_
  obtain ⟨value, found⟩ := exists_of_mem_containerPlaces mem
  rw [Json.filter_childPlaces, value_branchTo found, found, Option.bind_some, List.map_map]
  cases named : (Key.name name).position? value with
  | none =>
      rw [Key.child?, named]
      rfl
  | some position =>
      obtain ⟨key, child, listed⟩ := Json.exists_listed_of_position? named
      have below : branchTo document (owner ++ [position]) =
          (.key key, child) :: branchTo document owner :=
        History.along_concat listed found [(.root, document)]
      have path : Match.path ⟨(branchTo document owner).labels ++ [.key (.name name)], child⟩ =
          Match.path ⟨(branchTo document owner).labels ++ [.key key], child⟩ := by
        simp only [Match.path, Label.render, List.map_append, List.map_cons, List.map_nil,
          Key.fragment_of_position? named listed]
      rw [Key.child?, named, Option.bind_some, Json.childAt?_of_children listed]
      show [(Match.path ⟨_, child⟩, child)] =
        [(((branchTo document (owner ++ [position])).toMatch document).path, _)]
      rw [path, below, History.toMatch, History.labels_cons]
      rfl

theorem compile_descent_name (options : Options) {name quoted : String}
    (denotes : quoted ∈ [Label.quoteName name, Json.writeString name]) :
    compile ("$..[" ++ quoted ++ "]") options =
      .ok (assemble ("$..[" ++ quoted ++ "]") [.root, .descent, .property (.name name)] options
        [.descent, .property (.name name)]) := by
  have spelled : ∃ key : KeySpelling, key.key = .name name ∧ key.text = quoted.toList := by
    rcases List.mem_cons.mp denotes with rfl | last
    · exact ⟨.single name, rfl, rfl⟩
    · exact ⟨.double name, rfl, List.mem_singleton.mp last ▸ rfl⟩
  obtain ⟨key, key_eq, text⟩ := spelled
  have parsed := Step.parse_texts [.leading (.descent (.property key))]
  have written : String.ofList ('$' :: Spelling.texts [.leading (.descent (.property key))]) =
      "$..[" ++ quoted ++ "]" := by
    rw [← String.toList_inj, String.toList_ofList, String.toList_append, String.toList_append,
      ← text]
    show '$' :: (('.' :: '.' :: '[' :: (key.text ++ [']'])) ++ []) = _
    rw [List.append_nil]
    rfl
  have steps : Step.root :: List.flatMap Spelling.steps [.leading (.descent (.property key))] =
      [.root, .descent, .property (.name name)] := by
    rw [← key_eq]
    rfl
  rw [written, steps] at parsed
  exact compile_eq_ok_iff.mpr ⟨_, _, parsed, by rfl, rfl⟩

/-- Descent with a wildcard succeeds and matches the nodes below the root, in order of descent, each by
its own labels and value.  Descent with a quoted name matches, by paths and values, those of them that the
name leads to from their parents. -/
theorem records_descent (document : Json) (context : Option Registry) (options : Options) :
    ∃ (program : Program) (nodes : List (List Nat × Match)),
      compile "$..*" options = .ok program ∧
      program.records document context = .ok (nodes.map Prod.snd) ∧
      document.Descent (nodes.map Prod.fst) ∧
      (∀ node ∈ nodes, document.matchAt? node.1 = some node.2) ∧
      ∀ name, ∀ quoted ∈ [Label.quoteName name, Json.writeString name],
        ∃ named found, compile ("$..[" ++ quoted ++ "]") options = .ok named ∧
          named.records document context = .ok found ∧
          found.map (fun m => (m.path, m.value)) =
            (nodes.filter fun node => document.ledTo (.name name) node.1).map fun node =>
              (node.2.path, node.2.value) := by
  let nodes : List (List Nat × Match) := document.descentPlaces.map fun place =>
    (place, (branchTo document place).toMatch document)
  have places : nodes.map Prod.fst = document.descentPlaces := by
    rw [List.map_map]
    exact List.map_id _
  refine ⟨_, nodes, compile_eq_ok_iff.mpr
    ⟨[.root, .descent, .wildcard], [.descent, .wildcard], by rfl, by rfl, rfl⟩, ?_, ?_, ?_, ?_⟩
  · rw [records_descent_wildcard, List.map_map]
    rfl
  · rw [places]
    exact document.descent_descentPlaces
  · intro node mem
    obtain ⟨place, place_mem, rfl⟩ := List.mem_map.mp mem
    obtain ⟨_, value, found⟩ := Json.mem_descentPlaces_iff.mp place_mem
    exact matchAt?_eq found
  · intro name quoted denotes
    obtain ⟨found, records, shown⟩ := records_descent_name name
    refine ⟨_, found, compile_descent_name options denotes, records, ?_⟩
    rw [shown, List.filter_map, List.map_map]
    rfl

end Program

end TreePath
