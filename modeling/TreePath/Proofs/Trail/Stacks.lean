/-
# Stacks — the trail is a store of persistent stacks

All branches of a trail share one array of frames.  What can be done with them is done here a second time on
stacks that share nothing: each branch is its own list of nodes with their labels, and the store is only the
log of what was emitted.

`Branching` is what can be done with branches, whatever they are kept in.  A session holds every branch that
was ever obtained, and a move is an action on any of them, so that branches are mixed in every possible way.

`trail_eq_stacks` says that after any moves every branch that was held at any time answers what its stack
says, and the records are read off the log.  Two relations carry it: `Represents`, between a branch and its
stack, which stays when the trail grows; and `Agree`, between two sessions, which every move keeps.
-/
import TreePath.Proofs.Permutation
import TreePath.Proofs.Trail.Frames

namespace TreePath

/-! ## Operations on branches -/

/-- What can be done with branches of a kind `β` that are kept in a store of a kind `σ`. -/
structure Branching (σ β : Type) where
  empty : σ
  start : β
  push : σ → β → Node → Label → β × σ
  parent? : σ → β → Option β
  advance : β → β
  emit : σ → β → σ

namespace Branching

inductive Action where
  | push (node : Node) (label : Label)
  | parent
  | advance
  | emit

structure Move where
  target : Nat
  action : Action

/-- A store, and all branches that were obtained so far, in order. -/
structure Session (σ β : Type) where
  store : σ
  held : List β

namespace Session

variable {σ β : Type} (kind : Branching σ β)

/-- An action on a branch.  A branch that it obtains is held from then on. -/
def act (s : Session σ β) (b : β) : Action → Session σ β
  | .push node label =>
    ⟨(kind.push s.store b node label).2, s.held ++ [(kind.push s.store b node label).1]⟩
  | .parent => { s with held := s.held ++ (kind.parent? s.store b).toList }
  | .advance => { s with held := s.held ++ [kind.advance b] }
  | .emit => { s with store := kind.emit s.store b }

/-- A move.  Nothing is done without its branch. -/
def move (s : Session σ β) (m : Move) : Session σ β :=
  match s.held[m.target]? with
  | none => s
  | some b => s.act kind b m.action

def start : Session σ β :=
  ⟨kind.empty, [kind.start]⟩

/-- The session after several moves. -/
def after (s : Session σ β) (moves : List Move) : Session σ β :=
  moves.foldl (move kind) s

theorem held_after (s : Session σ β) (moves : List Move) :
    s.held <+: (s.after kind moves).held := by
  induction moves generalizing s with
  | nil => exact List.prefix_refl _
  | cons m rest ih =>
      refine List.IsPrefix.trans ?_ (ih (s.move kind m))
      rw [move]
      cases s.held[m.target]? with
      | none => exact List.prefix_refl _
      | some b =>
          cases m.action with
          | push _ _ | parent | advance => exact List.prefix_append _ _
          | emit => exact List.prefix_refl _

end Session

/-- What can be done with branches of a trail. -/
def ofTrail : Branching Trail Cursor :=
  ⟨.empty, .start, Trail.push, Trail.parent?, Cursor.advance, Trail.emit⟩

end Branching

/-! ## Stacks -/

/-- A branch of its own: its nodes with their labels, the newest last, and the index of its next
instruction. -/
structure Stack where
  entries : List (Node × Label)
  step : Nat

namespace Stack

def push (s : Stack) (node : Node) (label : Label) : Stack :=
  { s with entries := s.entries ++ [(node, label)] }

def parent? (s : Stack) : Option Stack :=
  if 2 ≤ s.entries.length then some { s with entries := s.entries.dropLast } else none

def node? (s : Stack) : Option Node :=
  s.entries.getLast?.map Prod.fst

def labels (s : Stack) : List Label :=
  s.entries.map Prod.snd

def path (s : Stack) (further : List Label) : String :=
  Label.render (s.labels ++ further)

def holds (s : Stack) (node : Node) : Bool :=
  s.entries.any (·.1.site = node.site)

/-- The result that a stack is, unless it is empty. -/
def record? (s : Stack) : Option Match :=
  s.node?.map fun node => ⟨s.labels, node.value⟩

end Stack

/-- What can be done with stacks: only what is emitted is kept. -/
def Branching.ofStacks : Branching (List Stack) Stack where
  empty := []
  start := ⟨[], 0⟩
  push log s node label := (s.push node label, log)
  parent? _ s := s.parent?
  advance s := { s with step := s.step + 1 }
  emit log s := log ++ [s]

/-! ## A branch and its stack -/

namespace Trail

/-- A branch answers what a stack says. -/
structure Shows (t : Trail) (c : Cursor) (s : Stack) : Prop where
  step : c.step = s.step
  node : t.node? c = s.node?
  labels : t.labels c = s.labels
  path : ∀ further, t.path c further = s.path further
  onChain : ∀ node, t.onChain c node = s.holds node

/-- The frames of a branch are the entries of a stack. -/
structure Represents (t : Trail) (c : Cursor) (s : Stack) : Prop where
  within : c.Within t
  step : c.step = s.step
  chain : (t.chain c).map (fun frame => (frame.node, frame.label)) = s.entries.reverse

/-- The frame before a frame has a smaller number, and results are frames. -/
structure Numbered (t : Trail) : Prop where
  parents : ∀ (id : Nat) (frame : Frame), t.frames[id]? = some frame →
    ∀ parent, frame.parent = some parent → parent < id
  results : ∀ id ∈ t.results.toList, id < t.frames.size

variable {t t' : Trail} {c : Cursor} {s : Stack}

theorem node?_eq (h : c.Within t) : t.node? c = (t.chain c).head?.map Frame.node := by
  cases head : c.head with
  | none =>
      rw [t.chain_of_head_none head, node?, head]
      rfl
  | some id =>
      have found := Array.getElem?_eq_getElem (h id head)
      rw [chain, head, node?, head]
      dsimp only
      rw [chainFrom_of_getElem? found, Option.bind_some, found]
      rfl

theorem Represents.shows (h : t.Represents c s) : t.Shows c s := by
  have labels : t.labels c = s.labels := by
    have both := congrArg (List.map Prod.snd) h.chain
    rw [List.map_map, List.map_reverse] at both
    rw [Trail.labels, Stack.labels, List.reverse_eq_iff]
    exact both
  refine ⟨h.step, ?_, labels, ?_, ?_⟩
  · have both := congrArg (fun entries => entries.head?.map Prod.fst) h.chain
    rw [List.head?_map, Option.map_map, List.head?_reverse] at both
    rw [node?_eq h.within, Stack.node?, ← both]
    rfl
  · intro further
    rw [Trail.path, labels, Stack.path]
  · intro node
    have both := congrArg (List.any · (·.1.site = node.site)) h.chain
    rw [List.any_map, List.any_reverse] at both
    exact both

theorem Represents.grows (h : t.Represents c s) (g : t.Grows t') : t'.Represents c s :=
  ⟨h.within.grows g, h.step, by rw [g.chain h.within, h.chain]⟩

theorem Represents.start : Trail.empty.Represents .start ⟨[], 0⟩ :=
  ⟨.start _, rfl, rfl⟩

theorem Represents.advance (h : t.Represents c s) :
    t.Represents c.advance { s with step := s.step + 1 } :=
  ⟨h.within, congrArg (· + 1) h.step, h.chain⟩

theorem Represents.push (h : t.Represents c s) (node : Node) (label : Label) :
    (t.push c node label).2.Represents (t.push c node label).1 (s.push node label) := by
  refine ⟨within_push t c node label, h.step, ?_⟩
  rw [chain_push h.within, List.map_cons, h.chain, Stack.push, List.reverse_append]
  rfl

theorem Numbered.empty : Trail.empty.Numbered := by
  refine ⟨?_, fun _ mem => nomatch mem⟩
  intro id frame found
  cases found

theorem Numbered.push (numbered : t.Numbered) (h : c.Within t) (node : Node) (label : Label) :
    (t.push c node label).2.Numbered := by
  have grows := t.grows_push c node label
  refine ⟨?_, fun id mem => Nat.lt_of_lt_of_le (numbered.results id mem) grows.size_le⟩
  intro id frame found
  rcases getElem?_push_cases found with ⟨_, found⟩ | ⟨rfl, rfl⟩
  · exact numbered.parents id frame found
  · exact h

theorem Numbered.emit (numbered : t.Numbered) (h : c.Within t) : (t.emit c).Numbered := by
  refine ⟨?_, lt_of_mem_emit h numbered.results⟩
  rw [frames_emit]
  exact numbered.parents

theorem Numbered.records_push (numbered : t.Numbered) (c : Cursor) (node : Node) (label : Label) :
    (t.push c node label).2.records = t.records :=
  (t.grows_push c node label).filterMap_recordAt numbered.results

theorem parent?_of_getElem? {id : Nat} {frame : Frame} (head : c.head = some id)
    (found : t.frames[id]? = some frame) :
    t.parent? c = frame.parent.map fun parent => ⟨some parent, c.step⟩ := by
  rw [parent?, head, Option.bind_some, found, Option.map_eq_bind]
  rfl

/-- A branch has a parent exactly if its stack has one, and the parent is represented as well. -/
theorem Represents.parent? (h : t.Represents c s) (numbered : t.Numbered) :
    Option.Rel t.Represents (t.parent? c) s.parent? := by
  cases head : c.head with
  | none =>
      have empty : s.entries = [] := by
        rw [← List.reverse_eq_nil_iff, ← h.chain, t.chain_of_head_none head]
        rfl
      rw [Trail.parent?, head, Stack.parent?, empty]
      exact .none
  | some id =>
      obtain ⟨frame, found⟩ : ∃ frame, t.frames[id]? = some frame :=
        ⟨_, Array.getElem?_eq_getElem (h.within id head)⟩
      have entries := h.chain
      rw [t.chain_of_head_some head found (numbered.parents id frame found), List.map_cons,
        ← List.reverse_eq_iff, List.reverse_cons] at entries
      rw [parent?_of_getElem? head found, Stack.parent?, ← entries, List.dropLast_concat,
        List.length_append, List.length_reverse, List.length_map]
      cases parent : frame.parent with
      | none =>
          rw [t.chain_of_head_none rfl]
          exact .none
      | some p =>
          have before : Cursor.Within ⟨some p, c.step⟩ t :=
            .some (Nat.lt_trans (numbered.parents id frame found p parent) (h.within id head))
          have nonempty : t.chain ⟨some p, c.step⟩ ≠ [] := by
            rw [ne_eq, chain_eq_nil_iff before]
            exact Option.some_ne_none p
          have long : 2 ≤ (t.chain ⟨some p, c.step⟩).length + 1 :=
            Nat.succ_le_succ (List.length_pos_iff.mpr nonempty)
          rw [List.length_singleton, if_pos long]
          refine .some ⟨before, h.step, ?_⟩
          rw [List.reverse_reverse]

theorem Represents.shows_parent? (h : t.Represents c s) (numbered : t.Numbered) :
    Option.Rel t.Shows (t.parent? c) s.parent? := by
  have both := h.parent? numbered
  generalize t.parent? c = above, s.parent? = above' at both ⊢
  cases both with
  | none => exact .none
  | some above => exact .some above.shows

theorem Represents.records_emit (h : t.Represents c s) (numbered : t.Numbered) :
    (t.emit c).records = t.records ++ s.record?.toList := by
  have shows := h.shows
  have node := node?_eq h.within
  rw [Trail.records_emit h.within .null numbered.results, labels_history, t.value_history .null h.within,
    current, shows.labels, Stack.record?, ← shows.node, history, List.isEmpty_map, node]
  cases t.chain c <;> rfl

end Trail

/-! ## Runs -/

namespace Branching

open Session

/-- The branches of two sessions correspond in order, and so do their results. -/
structure Agree (trail : Session Trail Cursor) (reference : Session (List Stack) Stack) : Prop where
  numbered : trail.store.Numbered
  held : List.Forall₂ trail.store.Represents trail.held reference.held
  records : trail.store.records = reference.store.filterMap Stack.record?

variable {trail : Session Trail Cursor} {reference : Session (List Stack) Stack}

theorem grows_act (trail : Session Trail Cursor) (c : Cursor) (action : Action) :
    trail.store.Grows (trail.act ofTrail c action).store := by
  cases action with
  | push node label => exact trail.store.grows_push c node label
  | parent | advance => exact .refl _
  | emit => exact trail.store.grows_emit c

theorem grows_after (trail : Session Trail Cursor) (moves : List Move) :
    trail.store.Grows (trail.after ofTrail moves).store := by
  induction moves generalizing trail with
  | nil => exact .refl _
  | cons m rest ih =>
      refine Trail.Grows.trans ?_ (ih (trail.move ofTrail m))
      rw [move]
      cases trail.held[m.target]? with
      | none => exact .refl _
      | some c => exact grows_act trail c m.action

theorem Agree.start : Agree (.start ofTrail) (.start ofStacks) :=
  ⟨.empty, .cons .start .nil, rfl⟩

theorem Agree.act (agree : Agree trail reference) {c : Cursor} {s : Stack}
    (h : trail.store.Represents c s) (action : Action) :
    Agree (trail.act ofTrail c action) (reference.act ofStacks s action) := by
  -- whatever the action does, the branches held before it are still what their stacks are
  have held : List.Forall₂ (trail.act ofTrail c action).store.Represents trail.held reference.held :=
    agree.held.imp fun _ _ h => h.grows (grows_act trail c action)
  cases action with
  | push node label =>
      exact ⟨agree.numbered.push h.within node label,
        List.rel_append held (.cons (h.push node label) .nil),
        (agree.numbered.records_push c node label).trans agree.records⟩
  | parent =>
      refine ⟨agree.numbered, List.rel_append held ?_, agree.records⟩
      show List.Forall₂ _ (trail.store.parent? c).toList s.parent?.toList
      have both := h.parent? agree.numbered
      generalize trail.store.parent? c = above, s.parent? = above' at both
      cases both with
      | none => exact .nil
      | some parent => exact .cons parent .nil
  | advance =>
      exact ⟨agree.numbered, List.rel_append held (.cons h.advance .nil), agree.records⟩
  | emit =>
      refine ⟨agree.numbered.emit h.within, held, ?_⟩
      show (trail.store.emit c).records = (reference.store ++ [s]).filterMap Stack.record?
      rw [h.records_emit agree.numbered, List.filterMap_append, agree.records]
      cases record : s.record? <;> simp [record]

theorem Agree.move (agree : Agree trail reference) (m : Move) :
    Agree (trail.move ofTrail m) (reference.move ofStacks m) := by
  rw [Session.move, Session.move]
  have both := rel_getElem? agree.held m.target
  generalize trail.held[m.target]? = c, reference.held[m.target]? = s at both
  cases both with
  | none => exact agree
  | some h => exact agree.act h m.action

theorem Agree.after (agree : Agree trail reference) (moves : List Move) :
    Agree (trail.after ofTrail moves) (reference.after ofStacks moves) := by
  induction moves generalizing trail reference with
  | nil => exact agree
  | cons m rest ih => exact ih (agree.move m)

/-- A branch obtained by a push on one with a history has that one as its parent ever after. -/
theorem parent?_of_push (trail : Session Trail Cursor) {target : Nat} {c : Cursor}
    (held : trail.held[target]? = some c) (begins : c.head ≠ none) (node : Node) (label : Label)
    (further : List Move) :
    let later := trail.after ofTrail (⟨target, .push node label⟩ :: further)
    ∃ pushed, later.held[trail.held.length]? = some pushed ∧ later.store.parent? pushed = some c := by
  intro later
  let begun := trail.act ofTrail c (.push node label)
  have later_eq : later = begun.after ofTrail further := by
    show (trail.move ofTrail _).after ofTrail further = _
    rw [Session.move, held]
  refine ⟨(trail.store.push c node label).1, ?_, ?_⟩
  · obtain ⟨more, eq⟩ := begun.held_after ofTrail further
    rw [later_eq, ← eq]
    show ((trail.held ++ [_]) ++ more)[trail.held.length]? = _
    rw [List.append_assoc, List.getElem?_append_right (Nat.le_refl _), Nat.sub_self]
    rfl
  · have found := grows_after begun further _ _ (trail.store.getElem?_push_size c node label)
    rw [later_eq, Trail.parent?_of_getElem? rfl found]
    cases c with
    | mk head step =>
        cases head with
        | none => exact absurd rfl begins
        | some id => rfl

/-- Whatever is done with branches, in any order and on any mixture of them, each branch that was held
before some of the moves shows, after them, what its stack was then, and so does its parent.  A branch
obtained by a push on one with a history has that one as its parent.  The records are the stacks that
were emitted with a history, in order. -/
theorem trail_eq_stacks (moves further : List Move) :
    let begun := (Session.start ofTrail).after ofTrail moves
    let reference := (Session.start ofStacks).after ofStacks moves
    let trail := (begun.after ofTrail further).store
    List.Forall₂
      (fun c s => trail.Shows c s ∧ Option.Rel trail.Shows (trail.parent? c) s.parent?)
      begun.held reference.held ∧
    trail.records = (reference.after ofStacks further).store.filterMap Stack.record? ∧
    ∀ (target : Nat) (c : Cursor) (node : Node) (label : Label),
      begun.held[target]? = some c → c.head ≠ none →
      let later := begun.after ofTrail (⟨target, .push node label⟩ :: further)
      ∃ pushed, later.held[begun.held.length]? = some pushed ∧
        later.store.parent? pushed = some c := by
  intro begun reference trail
  have agree : Agree begun reference := Agree.start.after moves
  have agree' := agree.after further
  refine ⟨?_, agree'.records, ?_⟩
  · refine agree.held.imp ?_
    intro c s represents
    have later := represents.grows (grows_after begun further)
    exact ⟨later.shows, later.shows_parent? agree'.numbered⟩
  · intro target c node label held begins
    exact parent?_of_push begun held begins node label further

end Branching

end TreePath
