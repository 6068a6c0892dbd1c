/-
# Refinement — the store of frames is an implementation of copied histories

Two evaluators run the same program.  One keeps all branches in one trail and threads it through the
traversal; the other hands every branch its own list of labels and values.  They answer alike: the same
records in the same order, or the same first fault (`Program.records_eq_recordsByHistory`).

The proof is one induction over programs, sub-paths included.  `Refines next reference` says that whatever
goes on with a branch of a sound trail adds exactly the records that the reference finds for the history of
the branch, and keeps the trail sound.  Each way of going on preserves this:

* one successor, `Refines.proceed`;
* several in turn, `Refines.fanOut`;
* recursive descent, `Refines.descend`;

and so does each operation (`Refines.op`).

Descent passes over a node that is on its branch already, and the reference knows nothing of that.  It is
where the soundness of the trail comes in: a child is never on its own branch (`Trail/Sites`).
-/
import TreePath.Program.Compile
import TreePath.Proofs.Trail.Sites

namespace TreePath

open Trace

/-! ## The reference, successor by successor -/

def History.runAll (reference : History → Except Fault (List Match)) (hs : List History) :
    Except Fault (List Match) := do
  return (← hs.mapM reference).flatten

namespace History

variable (reference : History → Except Fault (List Match))

theorem runAll_nil : runAll reference [] = .ok [] :=
  rfl

theorem runAll_cons (h : History) (hs : List History) :
    runAll reference (h :: hs) = do
      let first ← reference h
      let others ← runAll reference hs
      return first ++ others := by
  simp only [runAll, List.mapM_cons, bind_assoc, pure_bind, List.flatten_cons]

theorem runAll_singleton (h : History) : runAll reference [h] = reference h := by
  rw [runAll_cons, runAll_nil]
  cases reference h with
  | error _ => rfl
  | ok found => exact congrArg Except.ok (List.append_nil found)

theorem runAll_append (hs hs' : List History) :
    runAll reference (hs ++ hs') = do
      let first ← runAll reference hs
      let others ← runAll reference hs'
      return first ++ others := by
  simp only [runAll, List.mapM_append, bind_assoc, pure_bind, List.flatten_append]

def extend (h : History) (children : List (Key × Node)) : List History :=
  children.map fun child => (.key child.1, child.2.value) :: h

theorem extend_cons (h : History) (key : Key) (child : Node) (rest : List (Key × Node)) :
    h.extend ((key, child) :: rest) = ((.key key, child.value) :: h) :: h.extend rest :=
  rfl

theorem children_eq_extend (h : History) (node : Node) :
    h.children node.value = h.extend node.children := by
  rw [children, ← node.map_value_children, List.map_map]
  rfl

theorem select_eq_extend (h : History) (node : Node) (keys : List Key) :
    h.select node.value keys = h.extend (Trace.select node keys) := by
  rw [select, extend, Trace.select, List.map_filterMap]
  refine congrArg (List.filterMap · keys) (funext ?_)
  intro key
  rw [← node.map_value_child? key, Option.map_map, Option.map_map]
  rfl

def containersIn (h : History) (key : Key) (child : Json) : List History :=
  if child.isContainer then containers ((.key key, child) :: h) child else []

/-- The containers at and below several children of the current value. -/
def containersBelow (h : History) (children : List (Key × Json)) : List History :=
  children.flatMap fun child => h.containersIn child.1 child.2

theorem containersOfItems_eq (h : History) (items : List Json) :
    ∀ (position : Nat), containersOfItems h position items =
      containersBelow h ((items.zipIdx position).map fun item => (.index item.2, item.1)) := by
  induction items with
  | nil => intro position; rfl
  | cons item rest ih =>
      intro position
      simp only [containersOfItems, ih, List.zipIdx_cons, List.map_cons, containersBelow,
        containersIn, List.flatMap_cons]

theorem containersOfMembers_eq (h : History) (members : List (String × Json)) :
    containersOfMembers h members =
      containersBelow h (members.map fun member => (.name member.1, member.2)) := by
  induction members with
  | nil => rfl
  | cons member rest ih =>
      simp only [containersOfMembers, ih, List.map_cons, containersBelow, containersIn,
        List.flatMap_cons]

theorem containers_eq (h : History) (value : Json) :
    containers h value = h :: containersBelow h value.children := by
  cases value with
  | arr items => rw [containers, containersOfItems_eq]; rfl
  | obj members => rw [containers, containersOfMembers_eq]; rfl
  | null | bool _ | num _ | str _ => rfl

theorem path_cons (h : History) (label : Label) (value : Json) :
    History.path ((label, value) :: h) [] = h.path [label] := by
  simp only [History.path, labels, List.map_cons, List.reverse_cons, List.append_nil]

theorem survivors_eq (script : Script) (document : Json) (t : Trail) (c : Cursor) :
    ∀ (candidates : List (Key × Node)),
      History.survivors script document ((t.history c).extend candidates) =
        (Trace.survivors script t c candidates).map (t.history c).extend := by
  intro candidates
  induction candidates with
  | nil => rfl
  | cons candidate rest ih =>
      obtain ⟨key, child⟩ := candidate
      rw [extend_cons, History.survivors, Trace.survivors, path_cons, t.path_history c, ih]
      show (script.test child.value _ >>= _) = _
      cases script.test child.value (if script.usesPath = true then _ else none) with
      | error _ => rfl
      | ok holds =>
          cases Trace.survivors script t c rest with
          | error _ => rfl
          | ok others => cases holds <;> rfl

end History

/-! ## Answers -/

section
variable (document : Json)

/-- `t'` has come from `t` and has gained the records `found`. -/
structure Gained (t : Trail) (found : List Match) (t' : Trail) : Prop where
  sound : t'.Sound document
  grows : t.Grows t'
  records : t'.records = t.records ++ found

/-- A run from `t` gains the records that are expected, or ends in the fault that is. -/
def Answers (t : Trail) (expected : Except Fault (List Match)) (result : Except Fault Trail) :
    Prop :=
  match expected with
  | .error fault => result = .error fault
  | .ok found => ∃ t', result = .ok t' ∧ Gained document t found t'

/-- Going on with a branch of a sound trail answers what the reference finds for its history. -/
def Refines (next : Next) (reference : History → Except Fault (List Match)) : Prop :=
  ∀ (c : Cursor) (t : Trail), t.Sound document → c.Within t →
    Answers document t (reference (t.history c)) (next c t)

end

variable {document : Json} {next : Next} {reference : History → Except Fault (List Match)}

theorem Answers.nothing {t : Trail} (sound : t.Sound document) :
    Answers document t (.ok []) (.ok t) :=
  ⟨t, rfl, sound, .refl t, (List.append_nil _).symm⟩

theorem Answers.seq {t : Trail} {first others : Except Fault (List Match)}
    {result : Except Fault Trail} {continue' : Trail → Except Fault Trail}
    (head : Answers document t first result)
    (tail : ∀ (t' : Trail), t'.Sound document → t.Grows t' →
      Answers document t' others (continue' t')) :
    Answers document t (do return (← first) ++ (← others)) (result >>= continue') := by
  cases first with
  | error fault =>
      rw [show result = .error fault from head]
      rfl
  | ok found =>
      obtain ⟨t', rfl, gained⟩ := head
      have rest := tail t' gained.sound gained.grows
      cases others with
      | error fault => exact rest
      | ok more =>
          obtain ⟨t'', eq, gained'⟩ := rest
          refine ⟨t'', eq, gained'.sound, gained.grows.trans gained'.grows, ?_⟩
          rw [gained'.records, gained.records, List.append_assoc]

theorem Answers.step {α : Type} {t : Trail} {step : Except Fault α}
    {expected : α → Except Fault (List Match)} {result : α → Except Fault Trail}
    (h : ∀ a, step = .ok a → Answers document t (expected a) (result a)) :
    Answers document t (step >>= expected) (step >>= result) := by
  cases step with
  | error _ => rfl
  | ok a => exact h a rfl

theorem Answers.of_push {t : Trail} (sound : t.Sound document) {c : Cursor} {node : Node}
    {label : Label} {expected : Except Fault (List Match)} {result : Except Fault Trail}
    (answer : Answers document (t.push c node label).2 expected result) :
    Answers document t expected result := by
  have g := t.grows_push c node label
  have records : (t.push c node label).2.records = t.records := g.filterMap_recordAt sound.results
  cases expected with
  | error fault => exact answer
  | ok found =>
      obtain ⟨t', eq, gained⟩ := answer
      exact ⟨t', eq, gained.sound, g.trans gained.grows, by rw [gained.records, records]⟩

theorem Answers.sound_grows {t t' : Trail} {expected : Except Fault (List Match)}
    {result : Except Fault Trail} (answers : Answers document t expected result)
    (ran : result = .ok t') : t'.Sound document ∧ t.Grows t' := by
  cases expected with
  | error fault =>
      rw [show result = .error fault from answers] at ran
      cases ran
  | ok found =>
      obtain ⟨last, eq, gained⟩ := answers
      rw [eq] at ran
      cases ran
      exact ⟨gained.sound, gained.grows⟩

/-! ## Ways of going on -/

theorem Refines.proceed (refines : Refines document next reference) {t : Trail}
    (sound : t.Sound document) {c : Cursor} (h : c.Within t) {label : Label} {node : Node}
    (link : t.Linked document t.frames.size ⟨node, label, c.head⟩) :
    Answers document t (reference ((label, node.value) :: t.history c))
      (Trace.proceed next c t label node) := by
  have answer := refines (t.push c node label).1.advance (t.push c node label).2
    (sound.push link) (t.within_push c node label)
  rw [Trail.history_advance, Trail.history_push h] at answer
  exact .of_push sound answer

theorem Refines.fanOut (refines : Refines document next reference) {c : Cursor} {node : Node} :
    ∀ (children : List (Key × Node)) (t : Trail), t.Sound document → c.Within t →
      t.current document c = node → (∀ child ∈ children, node.IsChild child.1 child.2) →
      Answers document t (History.runAll reference ((t.history c).extend children))
        (Trace.fanOut next c t children) := by
  intro children
  induction children with
  | nil => intro t sound _ _ _; exact .nothing sound
  | cons child rest ih =>
      intro t sound h current isChild
      obtain ⟨key, child⟩ := child
      have linked := isChild _ List.mem_cons_self
      have smaller : ∀ parent, c.head = some parent → parent < t.frames.size := h
      rw [History.extend_cons, History.runAll_cons]
      refine Answers.seq (refines.proceed sound h (.key smaller ?_)) ?_
      · rw [← current] at linked
        exact linked
      · intro t' sound' grows
        have answer := ih t' sound' (h.grows grows) ((grows.current h).trans current)
          (fun child mem => isChild child (List.mem_cons_of_mem _ mem))
        rwa [grows.history h] at answer

theorem follow_eq_fanOut (next : Next) (node : Node) (c : Cursor) (t : Trail) (key : Key) :
    Trace.follow next node c t key = Trace.fanOut next c t (Trace.select node [key]) := by
  rw [Trace.follow, Trace.select]
  cases found : node.child? key with
  | none => simp only [List.filterMap_cons, found, Option.map_none]; rfl
  | some child =>
      simp only [List.filterMap_cons, found, Option.map_some, List.filterMap_nil]
      exact (bind_pure (Trace.proceed next c t (.key key) child)).symm

theorem survivors_sublist {script : Script} {t : Trail} {c : Cursor} :
    ∀ {candidates kept : List (Key × Node)},
      Trace.survivors script t c candidates = .ok kept → kept.Sublist candidates := by
  intro candidates
  induction candidates with
  | nil =>
      intro kept eq
      cases eq
      exact List.nil_sublist _
  | cons candidate rest ih =>
      intro kept eq
      obtain ⟨key, child⟩ := candidate
      simp only [Trace.survivors] at eq
      cases tested : script.test child.value
          (if script.usesPath then some (t.path c [.key key]) else none) with
      | error fault =>
          rw [tested] at eq
          cases eq
      | ok holds =>
          cases others : Trace.survivors script t c rest with
          | error fault =>
              rw [tested, others] at eq
              cases eq
          | ok found =>
              rw [tested, others] at eq
              cases holds with
              | true =>
                  cases eq
                  exact (ih others).cons_cons _
              | false =>
                  cases eq
                  exact (ih others).cons _

theorem Node.isChild_of_mem_select {node : Node} {keys : List Key} :
    ∀ child ∈ Trace.select node keys, node.IsChild child.1 child.2 := by
  intro child mem
  obtain ⟨key, -, found⟩ := List.mem_filterMap.mp mem
  obtain ⟨_, named, rfl⟩ := Option.map_eq_some_iff.mp found
  exact Node.isChild_of_child? named

/-- What recursive descent does with one child. -/
def Trace.descendInto (next : Next) (c : Cursor) (t : Trail) (child : Key × Node) :
    Except Fault Trail :=
  if !child.2.isContainer || t.onChain c child.2 then return t
  else
    let (below, t) := t.push c child.2 (.key child.1)
    Trace.descend next child.2 below t

theorem descend_eq (next : Next) (node : Node) (c : Cursor) (t : Trail) :
    Trace.descend next node c t =
      next c.advance t >>= node.children.foldlM (Trace.descendInto next c) := by
  rw [Trace.descend]
  refine congrArg _ (funext ?_)
  intro t
  rw [List.foldlM_subtype (g := Trace.descendInto next c) (fun _ _ _ => rfl),
    List.unattach_attach]

/-- Descent below a node reaches the containers of its value. -/
def Descends (document : Json) (next : Next) (reference : History → Except Fault (List Match))
    (node : Node) : Prop :=
  ∀ (c : Cursor) (t : Trail), t.Sound document → c.Within t → t.current document c = node →
    Answers document t (History.runAll reference ((t.history c).containers node.value))
      (Trace.descend next node c t)

/-- A child is never on its own branch, so descent passes over no container. -/
theorem Descends.into {child : Node} (descends : Descends document next reference child)
    {c : Cursor} {t : Trail} (sound : t.Sound document) (h : c.Within t) {key : Key}
    (isChild : (t.current document c).IsChild key child) :
    Answers document t (History.runAll reference ((t.history c).containersIn key child.value))
      (Trace.descendInto next c t (key, child)) := by
  rw [History.containersIn, Trace.descendInto, sound.onChain_eq_false h isChild, Bool.or_false]
  by_cases container : child.isContainer
  · have answer := descends (t.push c child (.key key)).1 (t.push c child (.key key)).2
      (sound.push (.key h isChild)) (t.within_push c child (.key key))
      (t.current_push document c child (.key key))
    rw [Trail.history_push h] at answer
    rw [if_pos (show child.value.isContainer = true from container), container]
    exact .of_push sound answer
  · rw [if_neg (show ¬ child.value.isContainer = true from container),
      Bool.eq_false_iff.mpr container]
    exact .nothing sound

theorem Descends.below {node : Node} {c : Cursor} :
    ∀ (children : List (Key × Node)) (t : Trail),
      (∀ child ∈ children, node.IsChild child.1 child.2 ∧
        Descends document next reference child.2) →
      t.Sound document → c.Within t → t.current document c = node →
      Answers document t
        (History.runAll reference ((t.history c).containersBelow
          (children.map fun child => (child.1, child.2.value))))
        (children.foldlM (Trace.descendInto next c) t) := by
  intro children
  induction children with
  | nil => intro t _ sound _ _; exact .nothing sound
  | cons child rest ih =>
      intro t each sound h current
      obtain ⟨isChild, descends⟩ := each child List.mem_cons_self
      rw [List.map_cons, History.containersBelow, List.flatMap_cons, History.runAll_append,
        List.foldlM_cons]
      refine Answers.seq (descends.into sound h (current ▸ isChild)) ?_
      intro t' sound' grows
      have answer := ih t' (fun child mem => each child (List.mem_cons_of_mem _ mem)) sound'
        (h.grows grows) ((grows.current h).trans current)
      rwa [grows.history h] at answer

theorem Refines.descend (refines : Refines document next reference) :
    ∀ (node : Node), Descends document next reference node := by
  intro node
  induction size : sizeOf node.value using Nat.strongRecOn generalizing node with
  | _ size ih =>
      subst size
      intro c t sound h current
      rw [descend_eq, History.containers_eq, History.runAll_cons]
      refine Answers.seq (refines c.advance t sound h) ?_
      intro t' sound' grows
      have answer := Descends.below node.children t'
        (fun child mem => ⟨Node.isChild_of_mem_children mem,
          ih _ (Node.sizeOf_children_lt mem) child.2 rfl⟩)
        sound' (h.grows grows) ((grows.current h).trans current)
      rwa [grows.history h, node.map_value_children] at answer

/-! ## Operations and programs -/

section
variable (document : Json) (context : Option Registry)

/-- What the reference finds for a branch under an operation, and then what goes on. -/
def Op.expected (op : Op) (reference : History → Except Fault (List Match)) (h : History) :
    Except Fault (List Match) :=
  match op with
  | .emit => .ok (if h.isEmpty then [] else [⟨h.labels, h.value document⟩])
  | op => op.successors document context h >>= History.runAll reference

theorem Program.runHistory_cons (op : Op) (flags : Flags) (rest : List Instruction) :
    Program.runHistory document context (⟨op, flags⟩ :: rest) =
      op.expected document context (Program.runHistory document context rest) := by
  funext h
  cases op <;> rfl

/-- The parent of a branch is its history without the newest entry, if something is left. -/
theorem Op.successors_parent (h : History) :
    Op.parent.successors document context h =
      .ok (if h.tail.isEmpty then [] else [h.tail]) := by
  rcases h with _ | ⟨newest, _ | ⟨above, rest⟩⟩ <;> rfl

end

variable {context : Option Registry}

/-- One operation; a sub-path is taken to have the same records for both. -/
theorem Refines.op (refines : Refines document next reference) (op : Op)
    (same : ∀ nested, op = .subPath nested →
      nested.records document context = nested.recordsByHistory document context) :
    Refines document (op.run document context next) (op.expected document context reference) := by
  intro c t sound h
  have value := t.value_history document h
  have each : ∀ (children : List (Key × Node)),
      (∀ child ∈ children, (t.current document c).IsChild child.1 child.2) →
      Answers document t (History.runAll reference ((t.history c).extend children))
        (Trace.fanOut next c t children) :=
    fun children isChild => refines.fanOut children t sound h rfl isChild
  have chosen : ∀ (keys : List Key),
      Answers document t
        (History.runAll reference ((t.history c).select (t.current document c).value keys))
        (Trace.fanOut next c t (Trace.select (t.current document c) keys)) := by
    intro keys
    rw [History.select_eq_extend]
    exact each _ Node.isChild_of_mem_select
  cases op with
  | start =>
      have answer := refines.proceed (c := { c with head := none }) sound (fun _ eq => nomatch eq)
        .root
      rwa [Trail.history, t.chain_of_head_none rfl, ← History.runAll_singleton reference] at answer
  | emit =>
      exact ⟨t.emit c, rfl, sound.emit h, t.grows_emit c, t.records_emit h document sound.results⟩
  | property key =>
      show Answers document t (History.runAll reference _) (follow next _ c t key)
      rw [follow_eq_fanOut, value]
      exact chosen [key]
  | wildcard =>
      show Answers document t (History.runAll reference _) _
      rw [value, History.children_eq_extend]
      exact each _ fun _ mem => Node.isChild_of_mem_children mem
  | descent =>
      show Answers document t (History.runAll reference _) _
      rw [value]
      exact refines.descend _ c t sound h rfl
  | parent =>
      show Answers document t (Op.parent.successors document context _ >>= _) _
      rw [Op.successors_parent, Op.run]
      rcases sound.parent?_eq h with ⟨none, last⟩ | ⟨above, some, within, same, more⟩
      · rw [last, none]
        exact .nothing sound
      · rw [← same] at more ⊢
        rw [List.isEmpty_eq_false_iff.mpr more, some]
        show Answers document t (History.runAll reference [_]) _
        rw [History.runAll_singleton]
        exact refines above.advance t sound within
  | properties keys =>
      show Answers document t (History.runAll reference _) _
      rw [value]
      exact chosen keys
  | slice slice =>
      show Answers document t (History.runAll reference _) _
      rw [value]
      exact chosen (sliceKeys slice _)
  | script script =>
      simp only [Op.expected, Op.successors, bind_assoc, pure_bind, value, t.path_history c]
      refine Answers.step ?_
      intro key _
      rw [follow_eq_fanOut]
      exact chosen [key]
  | filter script =>
      simp only [Op.expected, Op.successors, value, History.children_eq_extend,
        History.survivors_eq]
      show Answers document t _ (Trace.survivors script t c (t.current document c).children >>= _)
      cases found : Trace.survivors script t c (t.current document c).children with
      | error _ => rfl
      | ok children =>
          exact each children fun child mem =>
            Node.isChild_of_mem_children ((survivors_sublist found).subset mem)
  | function name bound =>
      simp only [Op.expected, Op.successors, bind_assoc, pure_bind, value,
        History.runAll_singleton]
      refine Answers.step fun f _ => Answers.step ?_
      intro result _
      exact refines.proceed sound h (.call h)
  | subPath nested =>
      simp only [Op.expected, Op.successors, bind_assoc, pure_bind, value,
        ← same nested rfl]
      exact Answers.step fun records _ => chosen (keysOf records)

mutual

theorem Program.runCode_refines (context : Option Registry) :
    ∀ (code : List Instruction), Refines document (Program.runCode document context code)
      (Program.runHistory document context code)
  | [] => fun _ _ sound _ => .nothing sound
  | ⟨op, flags⟩ :: rest => by
      rw [Program.runHistory_cons]
      refine (Program.runCode_refines context rest).op op ?_
      intro nested eq
      subst eq
      exact Program.records_eq_recordsByHistory context nested

theorem Program.records_eq_recordsByHistory (context : Option Registry) :
    ∀ (program : Program), program.records document context =
      program.recordsByHistory document context
  | ⟨_, _, code, _, _⟩ => by
      have answer := Program.runCode_refines context code .start .empty .empty
        (Cursor.Within.start _)
      show Program.runCode document context code .start .empty >>= (fun t => pure t.records) =
        Program.runHistory document context code []
      have start : Trail.history .empty .start = [] := rfl
      rw [start] at answer
      cases found : Program.runHistory document context code [] with
      | error fault =>
          rw [found] at answer
          rw [show _ = Except.error fault from answer]
          rfl
      | ok records =>
          rw [found] at answer
          obtain ⟨t, eq, gained⟩ := answer
          rw [eq]
          exact congrArg Except.ok gained.records

end

end TreePath
