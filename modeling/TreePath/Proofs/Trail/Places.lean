/-
# Places — the nodes that matches are made of

A match keeps the labels and the value of its node and not the node itself.  So that theorems can say which
node was found, `located` has each match with the site of its node, read off the frames that the run has
emitted.

In a proper document the site of a match without calls is the place that its keys lead to
(`place_of_mem_located`).  `AtPlace` is the invariant, for the newest node of a branch.  It is proved by
induction along the branch, a child being where one more key leads, and not along the run: what a trail holds
is sound whatever put it there (`sound_of_runCode`).
-/
import TreePath.Proofs.Json.Places
import TreePath.Proofs.Results
import TreePath.Proofs.Trail.Refinement

namespace TreePath

def Label.key? : Label → Option Key
  | .key k => some k
  | _ => none

namespace Trail

/-- The results with the sites of their nodes. -/
def located (t : Trail) : List (Match × Site) :=
  t.results.toList.filterMap fun id =>
    (t.frames[id]?).map fun frame =>
      (⟨t.labels ⟨some id, 0⟩, frame.node.value⟩, frame.node.site)

theorem map_located (t : Trail) : t.located.map Prod.fst = t.records := by
  rw [located, List.map_filterMap, records]
  refine congrArg (List.filterMap · t.results.toList) (funext ?_)
  intro id
  rw [Option.map_map]
  rfl

variable {document : Json}

/-- The newest node of a branch is a node of the document, at the place that its keys lead to. -/
def AtPlace (document : Json) (t : Trail) (c : Cursor) : Prop :=
  ∃ place, (t.current document c).site = .document place ∧
    document.placeFrom? [] ((t.labels c).filterMap Label.key?) = some place ∧
    document.at? place = some (t.current document c).value

theorem atPlace_of_head_none (t : Trail) {c : Cursor} (head : c.head = none) :
    t.AtPlace document c := by
  rw [AtPlace, current_of_head_none head, Trail.labels, t.chain_of_head_none head]
  exact ⟨[], rfl, rfl, rfl⟩

theorem AtPlace.child {t : Trail} {before c : Cursor} (atPlace : t.AtPlace document before)
    (proper : document.Proper) {key : Key}
    (isChild : (t.current document before).IsChild key (t.current document c))
    (labels : t.labels c = t.labels before ++ [.key key]) : t.AtPlace document c := by
  obtain ⟨place, site, keys, value⟩ := atPlace
  obtain ⟨position, child, eq, isAt, listed⟩ := isChild.place
  have named : key.position? (t.current document before).value = some position := by
    rcases listed with listed | named
    · exact (proper.at? value).position?_of_listed listed
    · exact named
  rw [AtPlace, eq, labels]
  refine ⟨place ++ [position], ?_, ?_, ?_⟩
  · rw [Node.site_below]
    show ((t.current document before).site).below position = _
    rw [site]
    rfl
  · rw [List.filterMap_append]
    show document.placeFrom? [] (_ ++ [key]) = _
    rw [Json.placeFrom?_concat, keys]
    exact Json.placeFrom?_cons_eq_some_iff.mpr ⟨_, _, value, named, rfl⟩
  · rw [Json.at?_append, value, Node.value_below isAt]
    exact isAt

/-- The newest node of a branch without calls is where the keys of the branch lead. -/
theorem Sound.atPlace {t : Trail} (sound : t.Sound document) (proper : document.Proper)
    {c : Cursor} (h : c.Within t) :
    (∀ text, .call text ∉ t.labels c) → t.AtPlace document c := by
  refine sound.branch_induction ?_ ?_ h
  · exact fun c head _ => t.atPlace_of_head_none head
  · intro c id frame head found link chain above noCall
    have labels : t.labels c = t.labels ⟨frame.parent, c.step⟩ ++ [frame.label] := by
      rw [Trail.labels, chain, List.map_cons, List.reverse_cons, Trail.labels]
    have current : t.current document c = frame.node := current_of_getElem? head found
    cases link with
    | root =>
        have start : t.labels ⟨none, c.step⟩ = [] := by
          rw [Trail.labels, t.chain_of_head_none rfl]
          rfl
        rw [AtPlace, labels, start, current]
        exact ⟨[], rfl, rfl, rfl⟩
    | @key key child before smaller isChild =>
        refine (above ?_).child proper (current ▸ isChild) labels
        intro text mem
        rw [labels] at noCall
        exact noCall text (List.mem_append_left _ mem)
    | @call text result before smaller =>
        rw [labels] at noCall
        exact absurd (List.mem_append_right _ List.mem_cons_self) (noCall text)

end Trail

namespace Program

variable (document : Json) (context : Option Registry)

/-- The matches of a program with the sites of their nodes. -/
def located (program : Program) : Except Fault (List (Match × Site)) := do
  let t ← runCode document context program.code .start .empty
  return t.located

theorem map_located (program : Program) :
    (program.located document context).map (List.map Prod.fst) =
      program.records document context := by
  obtain ⟨source, steps, code, options, flags⟩ := program
  show Except.map _ (runCode document context code .start .empty >>= _) =
    runCode document context code .start .empty >>= _
  cases runCode document context code .start .empty with
  | error _ => rfl
  | ok t => exact congrArg Except.ok t.map_located

variable {document context}

theorem sound_of_runCode {code : List Instruction} {t : Trail}
    (ran : runCode document context code .start .empty = .ok t) : t.Sound document := by
  have answer := runCode_refines context code .start .empty (.empty : Trail.Sound document _)
    (Cursor.Within.start _)
  exact (answer.sound_grows ran).1

/-- A match without calls is a node of the document, at the place that its keys lead to. -/
theorem place_of_mem_located (proper : document.Proper) {program : Program}
    {found : List (Match × Site)} (h : program.located document context = .ok found) {m : Match}
    {site : Site} (mem : (m, site) ∈ found) (noCall : ∀ text, .call text ∉ m.labels) :
    ∃ place, site = .document place ∧
      document.placeFrom? [] (m.labels.filterMap Label.key?) = some place ∧
      document.at? place = some m.value := by
  obtain ⟨t, ran, h⟩ := bind_eq_ok_iff.mp h
  cases h
  have sound := sound_of_runCode ran
  obtain ⟨id, id_mem, eq⟩ := List.mem_filterMap.mp mem
  obtain ⟨frame, at_id, eq⟩ := Option.map_eq_some_iff.mp eq
  cases eq
  have current : t.current document ⟨some id, 0⟩ = frame.node :=
    Trail.current_of_getElem? rfl at_id
  rw [← current]
  exact sound.atPlace proper (.some (sound.results id id_mem)) noCall

end Program

end TreePath
