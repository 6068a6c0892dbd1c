/-
# Standing — in every state of a run, nothing falls back

The run has ways out where something is missing: it stops if no instruction is at the step of a branch, takes
the document where a branch has no node, takes null where a place does not exist, emits nothing for a branch
without a head, and passes over a child that is on its branch already.  None of these is ever taken.

`Standing` has what is meant, and `standing_of_reached` proves it of every state of a run of a compiled
program.  Branches stay inside the program and have nodes once they have begun, all numbers of frames are
good, results of calls are entered only at places that they have, and no child is on its branch.

* About trails: a sound trail is `Intact`, so every node resolves, one below the result of a call also by the
  keys that led to it.
* About programs: a compiled program is `Framed`, with its start where it begins and its emission at the end.
* About runs: `Alive` is what a run keeps of its branch, and `Holds` what it keeps from state to state.

The program of a sub-path is compiled like any other and runs on a trail of its own, so what holds of every
run holds of the runs inside it (`Program.Runs`).
-/
import TreePath.Proofs.Json.Places
import TreePath.Proofs.Program.Compiled
import TreePath.Proofs.Trail.Places
import TreePath.Proofs.Trail.Visits

namespace TreePath

open Trace

/-! ## Nodes that resolve -/

/-- The place of a node exists, so that its value is the value there. -/
def Node.Resolves : Node → Prop
  | .placed _ _ => True
  | .computed _ result place => ∃ value, result.at? place = some value

theorem Node.IsChild.resolves {node child : Node} {key : Key} (h : node.IsChild key child) :
    child.Resolves := by
  obtain ⟨position, value, rfl, found, -⟩ := h.place
  cases node with
  | placed place owner => trivial
  | computed call result place =>
      cases owner : result.at? place with
      | none =>
          rw [Node.value, owner] at found
          cases found
      | some owner' =>
          rw [Node.value, owner] at found
          refine ⟨value, ?_⟩
          rw [Json.at?_append, owner]
          exact found

namespace Trail

/-- The keys in front of labels, up to one that is no key. -/
def leadingKeys : List Label → List Key
  | .key k :: rest => k :: leadingKeys rest
  | _ => []

/-- The keys of a branch after its last call, in order. -/
def keysSinceCall (t : Trail) (c : Cursor) : List Key :=
  (leadingKeys ((t.chain c).map Frame.label)).reverse

/-- A branch that ends below the result of a call is where its keys since then lead in the result. -/
def KeysLead (t : Trail) (c : Cursor) : Prop :=
  ∀ call result place, t.node? c = some (.computed call result place) → result.Proper →
    result.placeFrom? [] (t.keysSinceCall c) = some place

/-- All numbers of frames are good, and every node resolves, a node below the result of a call also by
the keys that led to it. -/
structure Intact (t : Trail) : Prop where
  parents : ∀ (id : Nat) (frame : Frame), t.frames[id]? = some frame →
    ∀ parent, frame.parent = some parent → parent < id
  results : ∀ id ∈ t.results.toList, id < t.frames.size
  resolves : ∀ (id : Nat) (frame : Frame), t.frames[id]? = some frame → frame.node.Resolves
  keys : ∀ id < t.frames.size, t.KeysLead ⟨some id, 0⟩

variable {document : Json}

theorem Linked.resolves {t : Trail} {id : Nat} {frame : Frame} (h : t.Linked document id frame) :
    frame.node.Resolves := by
  cases h with
  | root => trivial
  | key _ isChild => exact isChild.resolves
  | call _ => exact ⟨_, rfl⟩

theorem KeysLead.child {t : Trail} {before c : Cursor} (lead : t.KeysLead before) {key : Key}
    {child : Node} (isChild : (t.current document before).IsChild key child)
    (node : t.node? c = some child)
    (keys : t.keysSinceCall c = t.keysSinceCall before ++ [key]) : t.KeysLead c := by
  intro call result place eq proper
  rw [node] at eq
  cases eq
  obtain ⟨position, value, below, found, listed⟩ := isChild.place
  cases owner : t.current document before with
  | placed place' value' =>
      rw [owner] at below
      cases below
  | computed call' result' place' =>
      rw [owner] at below found listed
      cases below
      have above : t.node? before = some (.computed call result place') := by
        cases known : t.node? before with
        | none =>
            rw [current, known] at owner
            cases owner
        | some node' =>
            rw [current, known] at owner
            exact congrArg some owner
      cases isAt : result.at? place' with
      | none =>
          rw [Node.value, isAt] at found
          cases found
      | some inner =>
          rw [Node.value, isAt, Option.getD_some] at listed
          have named : key.position? inner = some position := by
            rcases listed with listed | named
            · exact (proper.at? isAt).position?_of_listed listed
            · exact named
          rw [keys, Json.placeFrom?_concat, lead _ _ _ above proper]
          exact Json.placeFrom?_cons_eq_some_iff.mpr ⟨inner, position, isAt, named, rfl⟩

theorem keysLead_of_head_none (t : Trail) {c : Cursor} (head : c.head = none) : t.KeysLead c := by
  intro call result place eq
  rw [node?, head] at eq
  cases eq

theorem Sound.keysLead {t : Trail} (sound : t.Sound document) {c : Cursor} (h : c.Within t) :
    t.KeysLead c := by
  refine sound.branch_induction ?_ ?_ h
  · exact fun c head => t.keysLead_of_head_none head
  · intro c id frame head found link chain above
    have node : t.node? c = some frame.node := by
      rw [node?, head, Option.bind_some, found]
      rfl
    cases link with
    | root =>
        intro call result place eq
        rw [node] at eq
        cases eq
    | @key key child before smaller isChild =>
        refine above.child isChild node ?_
        rw [keysSinceCall, chain, List.map_cons, leadingKeys, List.reverse_cons, keysSinceCall]
    | @call text result before smaller =>
        intro call result' place eq _
        rw [node] at eq
        cases eq
        rw [keysSinceCall, chain]
        rfl

theorem Sound.intact {t : Trail} (sound : t.Sound document) : t.Intact where
  parents id frame found := (sound.linked id frame found).parent_lt
  results := sound.results
  resolves id frame found := (sound.linked id frame found).resolves
  keys _ lt := sound.keysLead (.some lt)

end Trail

/-! ## Compiled programs -/

/-- A program starts where it begins, and only there, and ends with its emission. -/
structure Program.Framed (code : List Instruction) : Prop where
  start : ∀ (step : Nat) (i : Instruction), code[step]? = some i → (i.op = .start ↔ step = 0)
  emit : ∀ (step : Nat) (i : Instruction), code[step]? = some i → i.op ≠ .emit →
    step + 1 < code.length
  nonempty : 0 < code.length

theorem Op.Compiles.ne_start {options : Options} {step : Step} {op : Op}
    (h : Op.Compiles options step op) (ne : step ≠ .root) : op ≠ .start := by
  cases h with
  | root => exact absurd rfl ne
  | _ => exact fun eq => nomatch eq

theorem Program.framed_assemble (source : String) (steps : List Step) (options : Options)
    {ops : List Op} (inner : ∀ op ∈ ops, op ≠ .start) :
    Framed (assemble source steps options ops).code := by
  have inverse : ∀ (step : Nat) (i : Instruction),
      (assemble source steps options ops).code[step]? = some i →
        (Op.start :: (ops ++ [Op.emit]))[step]? = some i.op := by
    intro step i found
    obtain ⟨op, listed, rfl⟩ := Option.map_eq_some_iff.mp (List.getElem?_map.symm.trans found)
    exact listed
  have length : (assemble source steps options ops).code.length = ops.length + 2 := by
    rw [assemble]
    simp
  refine ⟨?_, ?_, by rw [length]; exact Nat.succ_pos _⟩
  · intro step i found
    have found := inverse step i found
    cases step with
    | zero =>
        exact ⟨fun _ => rfl, fun _ => (Option.some.inj found).symm⟩
    | succ step =>
        have mem := List.mem_of_getElem? (List.getElem?_cons_succ.symm.trans found)
        have ne : i.op ≠ .start := by
          rcases List.mem_append.mp mem with mem | mem
          · exact inner _ mem
          · rw [List.mem_singleton.mp mem]
            exact fun eq => nomatch eq
        exact ⟨fun eq => absurd eq ne, fun eq => nomatch eq⟩
  · intro step i found ne
    have found := inverse step i found
    have lt := (List.getElem?_eq_some_iff.mp found).1
    rw [List.length_cons, List.length_append, List.length_singleton] at lt
    have notLast : step ≠ ops.length + 1 := by
      rintro rfl
      rw [List.getElem?_cons_succ, List.getElem?_concat_length] at found
      exact ne (Option.some.inj found).symm
    rw [length]
    omega

theorem Program.framed_of_compile {expression : String} {options : Options} {program : Program}
    (compiled : compile expression options = .ok program) : Framed program.code := by
  obtain ⟨steps, ops, parsed, lowered, rfl⟩ := compile_eq_ok_iff.mp compiled
  refine framed_assemble expression steps options ?_
  intro op mem
  obtain ⟨step, _, ne, compiles⟩ := Step.exists_of_mem_lower lowered mem
  exact compiles.ne_start ne

/-- The programs that run when a program does: itself, and those of the sub-paths of such programs. -/
inductive Program.Runs (program : Program) : Program → Prop
  | self : Program.Runs program program
  | subPath {outer nested : Program} {i : Instruction} : Program.Runs program outer →
      i ∈ outer.code → i.op = .subPath nested → Program.Runs program nested

theorem Program.op_of_mem_code {source : String} {steps : List Step} {options : Options}
    {ops : List Op} {i : Instruction} (mem : i ∈ (assemble source steps options ops).code) :
    i.op = .start ∨ i.op ∈ ops ∨ i.op = .emit := by
  obtain ⟨op, listed, rfl⟩ := List.mem_map.mp mem
  rcases List.mem_cons.mp listed with start | listed
  · exact .inl start
  · exact .inr ((List.mem_append.mp listed).imp_right List.mem_singleton.mp)

/-- A program without sub-paths is the only one that runs when it does. -/
theorem Program.Runs.eq_of_noSubPath {source : String} {steps : List Step} {options : Options}
    {ops : List Op} {inner : Program} (runs : (assemble source steps options ops).Runs inner)
    (noSubPath : ∀ nested, .subPath nested ∉ ops) : inner = assemble source steps options ops := by
  induction runs with
  | self => rfl
  | @subPath outer nested i _ mem isSubPath ih =>
      subst ih
      rcases op_of_mem_code mem with start | listed | emit
      · cases isSubPath.symm.trans start
      · exact absurd (isSubPath ▸ listed) (noSubPath nested)
      · cases isSubPath.symm.trans emit

theorem Program.Runs.compiled_functions {expression : String} {options : Options}
    {program inner : Program} (runs : program.Runs inner)
    (compiled : compile expression options = .ok program) :
    ∃ text options', options'.functions = options.functions ∧ compile text options' = .ok inner := by
  induction runs with
  | self => exact ⟨expression, options, rfl, compiled⟩
  | @subPath outer nested i _ mem isSubPath ih =>
      obtain ⟨text, options', functions, compiled⟩ := ih
      obtain ⟨steps, ops, parsed, lowered, rfl⟩ := compile_eq_ok_iff.mp compiled
      have inner : .subPath nested ∈ ops := by
        rcases op_of_mem_code mem with start | listed | emit
        · cases isSubPath.symm.trans start
        · rwa [isSubPath] at listed
        · cases isSubPath.symm.trans emit
      obtain ⟨step, _, _, compiles⟩ := Step.exists_of_mem_lower lowered inner
      cases compiles with
      | subPath compiled => exact ⟨_, options'.nested, functions, compiled⟩

/-- All programs that run when a compiled program does are compiled. -/
theorem Program.Runs.compiled {expression : String} {options : Options} {program inner : Program}
    (runs : program.Runs inner) (compiled : compile expression options = .ok program) :
    ∃ text options', compile text options' = .ok inner := by
  obtain ⟨text, options', -, compiled⟩ := runs.compiled_functions compiled
  exact ⟨text, options', compiled⟩

/-! ## The states of a run -/

namespace Visit

def cursor : Visit → Cursor
  | trace c _ => c
  | descend _ c _ => c
  | child _ _ c _ => c

def trail : Visit → Trail
  | trace _ t => t
  | descend _ _ t => t
  | child _ _ _ t => t

/-- Nothing falls back in a state. -/
structure Standing (code : List Instruction) (v : Visit) : Prop where
  /-- The branch is inside the program. -/
  step : v.cursor.step < code.length
  /-- The branch has a node, but before the program starts. -/
  node : (v.trail.node? v.cursor).isSome ∨ v = .trace .start .empty
  head : ∀ id, v.cursor.head = some id → id < v.trail.frames.size
  intact : v.trail.Intact
  /-- The children of the node, listed or named, resolve like the nodes of frames. -/
  children : ∀ (node child : Node) (key : Key), v.trail.node? v.cursor = some node →
    (key, child) ∈ node.children ∨ node.child? key = some child → child.Resolves
  /-- What is emitted has a frame. -/
  emit : ∀ i : Instruction, code[v.cursor.step]? = some i → i.op = .emit →
    ∃ id, v.cursor.head = some id
  /-- Descent is at the node of its branch. -/
  descend : ∀ node c t, v = .descend node c t → t.node? c = some node
  /-- The guard of descent lets every child pass. -/
  child : ∀ key child c t, v = .child key child c t → t.onChain c child = false

end Visit

namespace Program

/-- A branch in a run: on a sound trail, inside the program, and begun unless nothing has run. -/
structure Alive (document : Json) (code : List Instruction) (c : Cursor) (t : Trail) : Prop where
  sound : t.Sound document
  within : c.Within t
  step : c.step < code.length
  begun : c.head ≠ none ∨ c = .start ∧ t = .empty

/-- What a run keeps from state to state. -/
def Holds (document : Json) (code : List Instruction) : Visit → Prop
  | .trace c t => Alive document code c t
  | .descend node c t =>
    Alive document code c t ∧ c.head ≠ none ∧ t.current document c = node
  | .child key child c t =>
    Alive document code c t ∧ c.head ≠ none ∧ (t.current document c).IsChild key child

variable {document : Json} {context : Option Registry} {code : List Instruction}

theorem Alive.start_or_begun (framed : Framed code) {c : Cursor} {t : Trail}
    (alive : Alive document code c t) {i : Instruction} (found : code[c.step]? = some i) :
    i.op = .start ∨ c.head ≠ none := by
  rcases alive.begun with begun | ⟨rfl, -⟩
  · exact .inr begun
  · exact .inl ((framed.start _ i found).mpr rfl)

theorem Alive.next (framed : Framed code) {c c' : Cursor} {t t' : Trail}
    (alive : Alive document code c t) {i : Instruction} (found : code[c.step]? = some i)
    (goesOn : GoesOn (fun next => i.run document context next c t)
      (runAt document context code) c' t') : Alive document code c' t' := by
  obtain ⟨sound, within, begun, step⟩ :=
    goesOn.begun alive.sound alive.within (alive.start_or_begun framed found)
  have ne : i.op ≠ .emit := by
    intro emit
    obtain ⟨next', ends⟩ := goesOn.exists_error (.unresolved "f")
    obtain ⟨op, flags⟩ := i
    cases emit
    cases ends
  refine ⟨sound, within, ?_, .inl begun⟩
  rw [step]
  exact framed.emit _ i found ne

theorem sound_grows_of_runAt {c : Cursor} {t t' : Trail} (sound : t.Sound document)
    (h : c.Within t) (ran : runAt document context code c t = .ok t') :
    t'.Sound document ∧ t.Grows t' :=
  (runCode_refines context (code.drop c.step) c t sound h).sound_grows ran

theorem descendInto_runAt (c : Cursor) :
    descendInto (runAt document context code) c =
      descendInto (runCode document context (code.drop (c.step + 1))) c := by
  have agree : AgreeAt (c.step + 1) (runAt document context code)
      (runCode document context (code.drop (c.step + 1))) := by
    intro c' t step
    rw [runAt, step]
  funext t child
  simp only [descendInto]
  split
  · rfl
  · exact AgreeAt.descend _ _ _ agree

theorem sound_grows_of_descendInto {c : Cursor} {t t' : Trail} (sound : t.Sound document)
    (h : c.Within t) {children : List (Key × Node)}
    (each : ∀ child ∈ children, (t.current document c).IsChild child.1 child.2)
    (ran : children.foldlM (descendInto (runAt document context code) c) t = .ok t') :
    t'.Sound document ∧ t.Grows t' := by
  rw [descendInto_runAt] at ran
  have refines : Refines document (runCode document context (code.drop (c.step + 1))) _ :=
    runCode_refines context _
  have answers := Descends.below children t
    (fun child mem => ⟨each child mem, refines.descend child.2⟩) sound h rfl
  exact answers.sound_grows ran

theorem Reached.holds (framed : Framed code) {v : Visit} (reached : Reached document context code v) :
    Holds document code v := by
  induction reached with
  | start => exact ⟨.empty, .start _, framed.nonempty, .inr ⟨rfl, rfl⟩⟩
  | next _ found goesOn ih => exact ih.next framed found goesOn
  | @descend c t i _ found descent ih =>
      refine ⟨ih, (ih.start_or_begun framed found).resolve_left ?_, rfl⟩
      rw [descent]
      exact fun eq => nomatch eq
  | @child node child c t t' t'' key before after _ ran children ran' ih =>
      obtain ⟨alive, begun, current⟩ := ih
      -- what has run since descent came to the node has only added frames, so the node is still there
      obtain ⟨sound, grows⟩ := sound_grows_of_runAt alive.sound (c := c.advance) alive.within ran
      have current' : t'.current document c = node := (grows.current alive.within).trans current
      have listed : ∀ child ∈ before, (t'.current document c).IsChild child.1 child.2 := by
        intro child mem
        rw [current']
        exact Node.isChild_of_mem_children (children ▸ List.mem_append_left _ mem)
      have within := alive.within.grows grows
      obtain ⟨sound', grows'⟩ := sound_grows_of_descendInto sound within listed ran'
      refine ⟨⟨sound', within.grows grows', alive.step, .inl begun⟩, begun, ?_⟩
      rw [grows'.current within, current']
      exact Node.isChild_of_mem_children (children ▸ List.mem_append_right _ List.mem_cons_self)
  | @into key child c t _ _ _ ih =>
      obtain ⟨alive, begun, isChild⟩ := ih
      have head : (t.push c child (.key key)).1.head ≠ none := Option.some_ne_none _
      exact ⟨⟨alive.sound.push (.key alive.within isChild), t.within_push _ _ _, alive.step,
        .inl head⟩, head, t.current_push _ _ _ _⟩

theorem Holds.alive {v : Visit} (h : Holds document code v) :
    Alive document code v.cursor v.trail := by
  cases v with
  | trace c t => exact h
  | descend node c t => exact h.1
  | child key child c t => exact h.1

theorem Holds.begun {v : Visit} (h : Holds document code v) :
    v.cursor.head ≠ none ∨ v = .trace .start .empty := by
  cases v with
  | trace c t =>
      refine (Alive.begun h).imp_right ?_
      rintro ⟨rfl, rfl⟩
      rfl
  | descend node c t => exact .inl h.2.1
  | child key child c t => exact .inl h.2.1

theorem Alive.node? {c : Cursor} {t : Trail} (alive : Alive document code c t)
    (begun : c.head ≠ none) : t.node? c = some (t.current document c) := by
  obtain ⟨id, head⟩ := Option.ne_none_iff_exists'.mp begun
  rw [Trail.current, Trail.node?, head, Option.bind_some,
    Array.getElem?_eq_getElem (alive.within id head)]
  rfl

theorem Holds.standing (framed : Framed code) {v : Visit} (h : Holds document code v) :
    v.Standing code where
  step := h.alive.step
  node := by
    rcases h.begun with begun | start
    · rw [h.alive.node? begun]
      exact .inl rfl
    · exact .inr start
  head := h.alive.within
  intact := h.alive.sound.intact
  children node child key _ listed := by
    rcases listed with listed | named
    · exact (Node.isChild_of_mem_children listed).resolves
    · exact (Node.isChild_of_child? named).resolves
  emit i found emit := by
    refine Option.ne_none_iff_exists'.mp ((h.alive.start_or_begun framed found).resolve_left ?_)
    rw [emit]
    exact fun eq => nomatch eq
  descend node c t eq := by
    subst eq
    obtain ⟨alive, begun, current⟩ := h
    rw [alive.node? begun, current]
  child key child c t eq := by
    subst eq
    obtain ⟨alive, _, isChild⟩ := h
    exact alive.sound.onChain_eq_false alive.within isChild

/-- No state of a run of a compiled program falls back, nor of the runs of its sub-paths, in any
document and any context. -/
theorem standing_of_reached {expression : String} {options : Options} {program : Program}
    (compiled : compile expression options = .ok program) (document : Json)
    (context : Option Registry) {inner : Program} (runs : program.Runs inner) {v : Visit}
    (reached : Reached document context inner.code v) : v.Standing inner.code := by
  obtain ⟨text, options', compiled⟩ := runs.compiled compiled
  have framed := framed_of_compile compiled
  exact (reached.holds framed).standing framed

/-- A child of a child, in a descent that has been through all before it. -/
theorem standing_of_reached_grandchild :
    let document := Json.arr [.arr [.null]]
    let program := assemble "$..*" [.root, .descent, .wildcard] .default [.descent, .wildcard]
    compile "$..*" .default = .ok program ∧
      ∃ t, Reached document none program.code
          (.child (.index 0) (.placed [0, 0] .null) ⟨some 2, 1⟩ t) ∧
        (Visit.child (.index 0) (.placed [0, 0] .null) ⟨some 2, 1⟩ t).Standing program.code := by
  intro document program
  have compiled : compile "$..*" .default = .ok program :=
    compile_eq_ok_iff.mpr ⟨_, _, by rfl, by rfl, rfl⟩
  let t := (Trail.empty.push .start (.ofDocument document) .root).2
  have begun : Reached document none program.code (.trace ⟨some 0, 1⟩ t) :=
    .next .start rfl fun _ _ planted _ => planted
  have root : Reached document none program.code
      (.descend (.ofDocument document) ⟨some 0, 1⟩ t) := .descend begun rfl rfl
  have child := root.first rfl rfl
  have standing := standing_of_reached compiled document none .self child
  have grandchild := (child.into rfl (standing.child _ _ _ _ rfl)).first rfl rfl
  exact ⟨compiled, _, grandchild, standing_of_reached compiled document none .self grandchild⟩
end Program

end TreePath
