/-
# Frames — what a branch sees of a growing trail

A frame never changes and the frame before it has a smaller number, so whatever is pushed afterwards a branch
keeps its chain of frames, and with it its labels, its path and its history.

`Grows` is the order between trails that says this: the frames of the one are frames of the other under the
same numbers.  Pushing and emitting grow a trail (`grows_push`, `grows_emit`), and everything that is read off
a branch stays under growth.

Each operation of the trail is described here by what it does to the chain of a branch; nothing later unfolds
`chainFrom`.  `history` is the chain without places, which is what a branch is for the evaluator that keeps
histories.  The last section has what an emission adds to the records.
-/
import Mathlib.Data.List.Basic
import TreePath.Trace.History

namespace TreePath

/-- The head of the branch is a frame of the trail. -/
def Cursor.Within (c : Cursor) (t : Trail) : Prop :=
  ∀ id, c.head = some id → id < t.frames.size

namespace Trail

/-- The frames of `t` are frames of `t'` under the same numbers. -/
def Grows (t t' : Trail) : Prop :=
  ∀ (id : Nat) (frame : Frame), t.frames[id]? = some frame → t'.frames[id]? = some frame

/-- The history of a branch, in values: the chain of its frames without their places. -/
def history (t : Trail) (c : Cursor) : History :=
  (t.chain c).map fun frame => (frame.label, frame.node.value)

/-- The node that an operation works on: that of the branch, or the document before the start. -/
def current (t : Trail) (document : Json) (c : Cursor) : Node :=
  (t.node? c).getD (.ofDocument document)

/-! ## Growth -/

theorem Grows.refl (t : Trail) : t.Grows t :=
  fun _ _ h => h

theorem Grows.trans {t t' t'' : Trail} (h : t.Grows t') (h' : t'.Grows t'') : t.Grows t'' :=
  fun id frame found => h' id frame (h id frame found)

theorem Grows.size_le {t t' : Trail} (h : t.Grows t') : t.frames.size ≤ t'.frames.size := by
  rcases Nat.eq_zero_or_pos t.frames.size with zero | pos
  · rw [zero]
    exact Nat.zero_le _
  · have last : t.frames.size - 1 < t.frames.size := by omega
    obtain ⟨below, -⟩ := Array.getElem?_eq_some_iff.mp
      (h _ _ (Array.getElem?_eq_getElem last))
    omega

theorem Grows.getElem? {t t' : Trail} (h : t.Grows t') {id : Nat} (lt : id < t.frames.size) :
    t'.frames[id]? = t.frames[id]? := by
  rw [Array.getElem?_eq_getElem lt]
  exact h _ _ (Array.getElem?_eq_getElem lt)

end Trail

theorem Cursor.Within.start (t : Trail) : Cursor.start.Within t :=
  fun _ h => nomatch h

theorem Cursor.Within.some {t : Trail} {id step : Nat} (h : id < t.frames.size) :
    Cursor.Within ⟨some id, step⟩ t := by
  intro id' eq
  cases eq
  exact h

theorem Cursor.Within.grows {t t' : Trail} {c : Cursor} (h : c.Within t) (g : t.Grows t') :
    c.Within t' :=
  fun id head => Nat.lt_of_lt_of_le (h id head) g.size_le

namespace Trail

theorem chainFrom_of_getElem? {t : Trail} {id : Nat} {frame : Frame}
    (found : t.frames[id]? = some frame) :
    t.chainFrom id = frame ::
      (match frame.parent with
       | none => []
       | some parent => if parent < id then t.chainFrom parent else []) := by
  conv => lhs; unfold chainFrom
  simp only [found]
  cases frame.parent <;> rfl

/-- A chain only visits numbers up to its first, so growth does not show in it. -/
theorem Grows.chainFrom {t t' : Trail} (g : t.Grows t') :
    ∀ (id : Nat), id < t.frames.size → t'.chainFrom id = t.chainFrom id := by
  intro id
  induction id using Nat.strongRecOn with
  | _ id ih =>
      intro lt
      have found := Array.getElem?_eq_getElem lt
      rw [chainFrom_of_getElem? found, chainFrom_of_getElem? (g _ _ found)]
      cases t.frames[id].parent with
      | none => rfl
      | some parent =>
          by_cases smaller : parent < id
          · simp only [smaller, if_true, ih parent smaller (Nat.lt_trans smaller lt)]
          · simp only [smaller, if_false]

theorem Grows.chain {t t' : Trail} (g : t.Grows t') {c : Cursor} (h : c.Within t) :
    t'.chain c = t.chain c := by
  simp only [Trail.chain]
  cases head : c.head with
  | none => rfl
  | some id => exact g.chainFrom id (h id head)

theorem Grows.history {t t' : Trail} (g : t.Grows t') {c : Cursor} (h : c.Within t) :
    t'.history c = t.history c := by
  rw [Trail.history, g.chain h, Trail.history]

theorem Grows.node? {t t' : Trail} (g : t.Grows t') {c : Cursor} (h : c.Within t) :
    t'.node? c = t.node? c := by
  simp only [Trail.node?]
  cases head : c.head with
  | none => rfl
  | some id =>
      rw [Option.bind_some, Option.bind_some, g.getElem? (h id head)]

theorem Grows.current {t t' : Trail} (g : t.Grows t') {document : Json} {c : Cursor}
    (h : c.Within t) : t'.current document c = t.current document c := by
  rw [Trail.current, g.node? h, Trail.current]

/-! ## Chains -/

theorem history_advance (t : Trail) (c : Cursor) : t.history c.advance = t.history c :=
  rfl

theorem chain_of_head_none (t : Trail) {c : Cursor} (h : c.head = none) : t.chain c = [] := by
  rw [chain, h]

theorem chain_of_head_some (t : Trail) {c : Cursor} {id : Nat} {frame : Frame}
    (head : c.head = some id) (found : t.frames[id]? = some frame)
    (smaller : ∀ parent, frame.parent = some parent → parent < id) :
    t.chain c = frame :: t.chain ⟨frame.parent, c.step⟩ := by
  simp only [chain, head, chainFrom_of_getElem? found]
  cases before : frame.parent with
  | none => rfl
  | some parent => simp only [smaller parent before, if_true]

theorem chain_eq_nil_iff {t : Trail} {c : Cursor} (h : c.Within t) :
    t.chain c = [] ↔ c.head = none := by
  constructor
  · intro empty
    cases head : c.head with
    | none => rfl
    | some id =>
        simp only [chain, head, chainFrom_of_getElem? (Array.getElem?_eq_getElem (h id head))]
          at empty
        cases empty
  · exact t.chain_of_head_none

theorem labels_history (t : Trail) (c : Cursor) : (t.history c).labels = t.labels c := by
  simp only [History.labels, history, labels, List.map_map, Function.comp_def]

theorem path_history (t : Trail) (c : Cursor) (further : List Label) :
    (t.history c).path further = t.path c further := by
  rw [History.path, labels_history, path]

theorem value_history (t : Trail) (document : Json) {c : Cursor} (h : c.Within t) :
    (t.history c).value document = (t.current document c).value := by
  cases head : c.head with
  | none =>
      rw [history, t.chain_of_head_none head]
      simp only [current, node?, head, Option.bind_none, Option.map_none, Option.getD_none]
      rfl
  | some id =>
      have found := Array.getElem?_eq_getElem (h id head)
      simp only [current, node?, head, Option.bind_some, found, Option.map_some, Option.getD_some,
        history, chain, chainFrom_of_getElem? found, List.map_cons]
      rfl

/-! ## Operations -/

theorem grows_push (t : Trail) (c : Cursor) (node : Node) (label : Label) :
    t.Grows (t.push c node label).2 := by
  intro id frame found
  have lt := (Array.getElem?_eq_some_iff.mp found).1
  simpa only [push, Array.getElem?_push_lt lt, Array.getElem?_eq_getElem lt] using found

theorem getElem?_push_size (t : Trail) (c : Cursor) (node : Node) (label : Label) :
    (t.push c node label).2.frames[t.frames.size]? = some ⟨node, label, c.head⟩ :=
  Array.getElem?_push_size

theorem size_push (t : Trail) (c : Cursor) (node : Node) (label : Label) :
    (t.push c node label).2.frames.size = t.frames.size + 1 :=
  Array.size_push _

theorem getElem?_push_cases {t : Trail} {c : Cursor} {node : Node} {label : Label} {id : Nat}
    {frame : Frame} (found : (t.push c node label).2.frames[id]? = some frame) :
    id < t.frames.size ∧ t.frames[id]? = some frame ∨
      id = t.frames.size ∧ frame = ⟨node, label, c.head⟩ := by
  rcases Nat.lt_trichotomy id t.frames.size with lt | rfl | gt
  · rw [(t.grows_push c node label).getElem? lt] at found
    exact .inl ⟨lt, found⟩
  · rw [getElem?_push_size] at found
    cases found
    exact .inr ⟨rfl, rfl⟩
  · have lt := (Array.getElem?_eq_some_iff.mp found).1
    rw [size_push] at lt
    omega

theorem within_push (t : Trail) (c : Cursor) (node : Node) (label : Label) :
    (t.push c node label).1.Within (t.push c node label).2 := by
  refine .some ?_
  rw [size_push]
  exact Nat.lt_succ_self _

theorem chain_push {t : Trail} {c : Cursor} (h : c.Within t) (node : Node) (label : Label) :
    (t.push c node label).2.chain (t.push c node label).1 = ⟨node, label, c.head⟩ :: t.chain c := by
  rw [chain_of_head_some _ rfl (t.getElem?_push_size c node label) h]
  exact congrArg _ ((t.grows_push c node label).chain h)

theorem history_push {t : Trail} {c : Cursor} (h : c.Within t) (node : Node) (label : Label) :
    (t.push c node label).2.history (t.push c node label).1 = (label, node.value) :: t.history c := by
  rw [history, chain_push h, history, List.map_cons]

theorem current_push (t : Trail) (document : Json) (c : Cursor) (node : Node) (label : Label) :
    (t.push c node label).2.current document (t.push c node label).1 = node := by
  show (Option.map Frame.node ((t.push c node label).2.frames[t.frames.size]?)).getD _ = node
  rw [getElem?_push_size]
  rfl

theorem frames_emit (t : Trail) (c : Cursor) : (t.emit c).frames = t.frames := by
  rw [emit]
  cases c.head <;> rfl

theorem grows_emit (t : Trail) (c : Cursor) : t.Grows (t.emit c) := by
  intro id frame found
  rwa [frames_emit]

theorem lt_of_mem_emit {t : Trail} {c : Cursor} (h : c.Within t)
    (inside : ∀ id ∈ t.results.toList, id < t.frames.size) :
    ∀ id ∈ (t.emit c).results.toList, id < (t.emit c).frames.size := by
  rw [emit]
  cases head : c.head with
  | none => exact inside
  | some emitted =>
      intro id mem
      rw [Array.toList_push, List.mem_append, List.mem_singleton] at mem
      rcases mem with mem | rfl
      · exact inside id mem
      · exact h id head

/-! ## Records -/

def recordAt (t : Trail) (id : Nat) : Option Match :=
  (t.frames[id]?).map fun frame => ⟨t.labels ⟨some id, 0⟩, frame.node.value⟩

theorem records_eq (t : Trail) : t.records = t.results.toList.filterMap t.recordAt :=
  rfl

theorem Grows.recordAt {t t' : Trail} (g : t.Grows t') {id : Nat} (lt : id < t.frames.size) :
    t'.recordAt id = t.recordAt id := by
  have within : Cursor.Within ⟨some id, 0⟩ t := .some lt
  rw [Trail.recordAt, g.getElem? lt, labels, g.chain within, Trail.recordAt, labels]

theorem Grows.filterMap_recordAt {t t' : Trail} (g : t.Grows t') {ids : List Nat}
    (inside : ∀ id ∈ ids, id < t.frames.size) :
    ids.filterMap t'.recordAt = ids.filterMap t.recordAt := by
  refine List.filterMap_congr ?_
  intro id mem
  exact g.recordAt (inside id mem)

theorem recordAt_head {t : Trail} {c : Cursor} {id : Nat} (h : c.Within t)
    (head : c.head = some id) (document : Json) :
    t.recordAt id = some ⟨(t.history c).labels, (t.history c).value document⟩ := by
  have lt := h id head
  have found : t.frames[id]? = some t.frames[id] := Array.getElem?_eq_getElem lt
  have same : t.labels ⟨some id, 0⟩ = t.labels c := by
    rw [labels, labels, chain, chain, head]
  rw [labels_history, value_history t document h, ← same]
  simp only [recordAt, current, node?, head, Option.bind_some, found, Option.map_some,
    Option.getD_some]

/-- Emission adds the record of the branch, unless its history is empty. -/
theorem records_emit {t : Trail} {c : Cursor} (h : c.Within t) (document : Json)
    (inside : ∀ id ∈ t.results.toList, id < t.frames.size) :
    (t.emit c).records = t.records ++
      (if (t.history c).isEmpty then []
        else [⟨(t.history c).labels, (t.history c).value document⟩]) := by
  cases head : c.head with
  | none => simp [emit, head, history, t.chain_of_head_none head]
  | some id =>
      have nonempty : (t.history c).isEmpty = false := by
        rw [history, List.isEmpty_map, List.isEmpty_eq_false_iff]
        intro empty
        rw [chain_eq_nil_iff h, head] at empty
        cases empty
      have results : (t.emit c).results.toList = t.results.toList ++ [id] := by
        simp only [emit, head, Array.toList_push]
      have g := t.grows_emit c
      rw [records_eq, results, List.filterMap_append, g.filterMap_recordAt inside, nonempty]
      simp only [List.filterMap_cons, List.filterMap_nil, g.recordAt (h id head),
        recordAt_head h head document, Bool.false_eq_true, if_false]
      rfl

end Trail

end TreePath
