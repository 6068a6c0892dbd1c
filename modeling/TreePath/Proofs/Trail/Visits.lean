/-
# Visits — the states that a run goes through

A run takes an instruction at a branch and goes on with other branches; recursive descent goes from node to
node and considers the children of each.  `Program.Reached` holds of the states that a run of a program comes
to in this way, also if it ends in a fault later on.

## Where a run goes on

A run is a function of what goes on with its branches, and there is no trace of its states to look at.  So an
instruction is asked where it goes on, by putting a fault there: it goes on with a branch of a trail if any
fault that is put there is the fault that the instruction ends in (`Trace.GoesOn`).

What is to be proved of such branches is proved by agreement.  Two ways of going on that agree on the
branches with a property make an instruction end alike, so a fault that is put at any other branch does not
show; and a branch where the instruction goes on has the property (`Trace.GoesOn.begun`).  The section on
`AgreeBegun` has this for each way of going on, for branches of sound trails that have begun and are at the
next step.
-/
import TreePath.Proofs.Trail.Steps

namespace TreePath

open Trace

/-- A run goes on with a branch of a trail: whatever fault is put there in the place of what goes on,
the run ends in it. -/
def Trace.GoesOn (run : Next → Except Fault Trail) (next : Next) (c : Cursor) (t : Trail) : Prop :=
  ∀ (fault : Fault) (next' : Next), next' c t = .error fault →
    (∀ c' t', ¬ (c' = c ∧ t' = t) → next' c' t' = next c' t') → run next' = .error fault

theorem Trace.GoesOn.exists_error {run : Next → Except Fault Trail} {next : Next} {c : Cursor}
    {t : Trail} (goesOn : GoesOn run next c t) (fault : Fault) :
    ∃ next', run next' = .error fault := by
  classical
  let planted : Next := fun c' t' => if c' = c ∧ t' = t then .error fault else next c' t'
  exact ⟨planted, goesOn fault planted (if_pos ⟨rfl, rfl⟩) fun c' t' ne => if_neg ne⟩

inductive Visit where
  /-- An instruction is about to be taken at a branch. -/
  | trace (c : Cursor) (t : Trail)
  /-- Recursive descent is at a node, the newest of a branch. -/
  | descend (node : Node) (c : Cursor) (t : Trail)
  /-- Recursive descent considers a child of the newest node of a branch. -/
  | child (key : Key) (child : Node) (c : Cursor) (t : Trail)

section
variable (document : Json) (context : Option Registry)

/-- The states that a run comes to. -/
inductive Program.Reached (code : List Instruction) : Visit → Prop
  | start : Program.Reached code (.trace .start .empty)
  | next {c c' : Cursor} {t t' : Trail} {i : Instruction} :
      Program.Reached code (.trace c t) → code[c.step]? = some i →
      GoesOn (fun next => i.run document context next c t)
        (Program.runAt document context code) c' t' →
      Program.Reached code (.trace c' t')
  | descend {c : Cursor} {t : Trail} {i : Instruction} :
      Program.Reached code (.trace c t) → code[c.step]? = some i → i.op = .descent →
      Program.Reached code (.descend (t.current document c) c t)
  /-- A child is considered after the node itself and the children before it. -/
  | child {node child : Node} {c : Cursor} {t t' t'' : Trail} {key : Key}
      {before after : List (Key × Node)} :
      Program.Reached code (.descend node c t) →
      Program.runAt document context code c.advance t = .ok t' →
      node.children = before ++ (key, child) :: after →
      before.foldlM (descendInto (Program.runAt document context code) c) t' = .ok t'' →
      Program.Reached code (.child key child c t'')
  | into {key : Key} {child : Node} {c : Cursor} {t : Trail} :
      Program.Reached code (.child key child c t) → child.isContainer = true →
      t.onChain c child = false →
      Program.Reached code
        (.descend child (t.push c child (.key key)).1 (t.push c child (.key key)).2)

end

variable {document : Json}

theorem Program.Reached.first {context : Option Registry} {code : List Instruction}
    {node child : Node} {c : Cursor} {t t' : Trail} {key : Key} {rest : List (Key × Node)}
    (reached : Reached document context code (.descend node c t))
    (ran : runAt document context code c.advance t = .ok t')
    (children : node.children = (key, child) :: rest) :
    Reached document context code (.child key child c t') :=
  reached.child ran (children.trans (List.nil_append _).symm) rfl

/-! ## Where an operation goes on -/

variable {next next' : Next} {reference : History → Except Fault (List Match)}

/-- Two ways of going on that agree on the branches of sound trails that have begun and are at a
step. -/
def AgreeBegun (document : Json) (step : Nat) (next next' : Next) : Prop :=
  ∀ (c : Cursor) (t : Trail), t.Sound document → c.Within t → c.head ≠ none → c.step = step →
    next' c t = next c t

theorem bind_congr_ok {α β : Type} {result : Except Fault α} {f g : α → Except Fault β}
    (h : ∀ a, result = .ok a → f a = g a) : result >>= f = result >>= g := by
  cases result with
  | error _ => rfl
  | ok a => exact h a rfl

namespace AgreeBegun

variable {c : Cursor} {t : Trail}

theorem proceed (agree : AgreeBegun document (c.step + 1) next next') (sound : t.Sound document)
    {label : Label} {node : Node}
    (link : t.Linked document t.frames.size ⟨node, label, c.head⟩) :
    Trace.proceed next' c t label node = Trace.proceed next c t label node :=
  agree _ _ (sound.push link) (t.within_push c node label) (Option.some_ne_none _) rfl

/-- Two ways of treating children of the newest node of a branch do the same with all of them if they
do the same with each, on every sound trail that can be left before it. -/
theorem foldlM_congr {step step' : Trail → Key × Node → Except Fault Trail} {node : Node}
    {children : List (Key × Node)}
    (each : ∀ child ∈ children, ∀ t : Trail, t.Sound document → c.Within t →
      t.current document c = node → step' t child = step t child ∧
        ∀ t', step t child = .ok t' → t'.Sound document ∧ t.Grows t')
    (sound : t.Sound document) (h : c.Within t) (current : t.current document c = node) :
    children.foldlM step' t = children.foldlM step t := by
  induction children generalizing t with
  | nil => rfl
  | cons child rest ih =>
      obtain ⟨same, kept⟩ := each child List.mem_cons_self t sound h current
      rw [List.foldlM_cons, List.foldlM_cons, same]
      refine bind_congr_ok ?_
      intro t' ran
      obtain ⟨sound', grows⟩ := kept t' ran
      exact ih (fun x mem => each x (List.mem_cons_of_mem _ mem)) sound' (h.grows grows)
        ((grows.current h).trans current)

theorem fanOut (agree : AgreeBegun document (c.step + 1) next next')
    (refines : Refines document next reference) (sound : t.Sound document) (h : c.Within t)
    {children : List (Key × Node)}
    (isChild : ∀ child ∈ children, (t.current document c).IsChild child.1 child.2) :
    Trace.fanOut next' c t children = Trace.fanOut next c t children := by
  refine foldlM_congr ?_ sound h rfl
  rintro ⟨key, child⟩ mem t' sound' h' current
  have link : t'.Linked document t'.frames.size ⟨child, .key key, c.head⟩ :=
    .key h' (current ▸ isChild (key, child) mem)
  exact ⟨agree.proceed sound' link, fun _ ran => (refines.proceed sound' h' link).sound_grows ran⟩

theorem descend (refines : Refines document next reference) :
    ∀ (node : Node) (c : Cursor) (t : Trail), AgreeBegun document (c.step + 1) next next' →
      t.Sound document → c.Within t → c.head ≠ none → t.current document c = node →
      Trace.descend next' node c t = Trace.descend next node c t := by
  intro node
  induction size : sizeOf node.value using Nat.strongRecOn generalizing node with
  | _ size ih =>
      subst size
      intro c t agree sound h begun current
      -- the node itself first, then its children, for which the induction on the size of values is
      rw [descend_eq, descend_eq, agree c.advance t sound h begun rfl]
      refine bind_congr_ok ?_
      intro t' ran
      obtain ⟨sound', grows⟩ := (refines c.advance t sound h).sound_grows ran
      refine foldlM_congr ?_ sound' (h.grows grows) ((grows.current h).trans current)
      intro child mem t sound h current
      have isChild : (t.current document c).IsChild child.1 child.2 :=
        current ▸ Node.isChild_of_mem_children mem
      constructor
      · simp only [descendInto]
        split
        · rfl
        · exact ih _ (Node.sizeOf_children_lt mem) child.2 rfl _ _ agree
            (sound.push (.key h isChild)) (t.within_push _ _ _) (Option.some_ne_none _)
            (t.current_push document _ _ _)
      · intro t' ran
        exact (Descends.into (refines.descend child.2) sound h isChild).sound_grows ran

variable (context : Option Registry)

theorem op (agree : AgreeBegun document (c.step + 1) next next')
    (refines : Refines document next reference) (sound : t.Sound document) (h : c.Within t)
    (op : Op) (begun : op = .start ∨ c.head ≠ none) :
    op.run document context next' c t = op.run document context next c t := by
  have each : ∀ (children : List (Key × Node)),
      (∀ child ∈ children, (t.current document c).IsChild child.1 child.2) →
      Trace.fanOut next' c t children = Trace.fanOut next c t children :=
    fun children isChild => agree.fanOut refines sound h isChild
  have chosen : ∀ (keys : List Key),
      Trace.fanOut next' c t (select (t.current document c) keys) =
        Trace.fanOut next c t (select (t.current document c) keys) :=
    fun keys => each _ Node.isChild_of_mem_select
  have followed : ∀ (key : Key), Trace.follow next' (t.current document c) c t key =
      Trace.follow next (t.current document c) c t key := by
    intro key
    rw [follow_eq_fanOut, follow_eq_fanOut]
    exact chosen [key]
  cases op with
  | start =>
      let root : Cursor := { c with head := none }
      exact agree _ _ (sound.push (c := root) .root) (t.within_push root _ _)
        (Option.some_ne_none _) rfl
  | emit => rfl
  | property key => exact followed key
  | wildcard => exact each _ fun _ mem => Node.isChild_of_mem_children mem
  | descent =>
      have head : c.head ≠ none := begun.resolve_left (fun eq => nomatch eq)
      exact AgreeBegun.descend refines _ c t agree sound h head rfl
  | parent =>
      simp only [Op.run]
      rcases sound.parent?_eq h with ⟨none, -⟩ | ⟨above, found, within, -, -⟩
      · rw [none]
      · rw [found]
        obtain ⟨frame, -, found⟩ := Option.bind_eq_some_iff.mp found
        obtain ⟨before, -, found⟩ := Option.bind_eq_some_iff.mp found
        cases found
        exact agree _ t sound within (Option.some_ne_none before) rfl
  | properties keys => exact chosen keys
  | slice slice => exact chosen _
  | script script =>
      simp only [Op.run]
      exact congrArg _ (funext followed)
  | filter script =>
      simp only [Op.run]
      refine bind_congr_ok ?_
      intro children found
      exact each children fun child mem =>
        Node.isChild_of_mem_children ((survivors_sublist found).subset mem)
  | function name bound =>
      simp only [Op.run]
      exact congrArg _ (funext fun f => congrArg _ (funext fun value => agree.proceed sound (.call h)))
  | subPath nested =>
      simp only [Op.run]
      exact congrArg _ (funext fun records => chosen _)

end AgreeBegun

/-- What goes on after a branch of a sound trail is another one, which has begun and is at the next
step. -/
theorem Trace.GoesOn.begun {context : Option Registry} {code : List Instruction} {c c' : Cursor}
    {t t' : Trail} {i : Instruction} (sound : t.Sound document) (h : c.Within t)
    (begun : i.op = .start ∨ c.head ≠ none)
    (goesOn : GoesOn (fun next => i.run document context next c t)
      (Program.runAt document context code) c' t') :
    t'.Sound document ∧ c'.Within t' ∧ c'.head ≠ none ∧ c'.step = c.step + 1 := by
  classical
  by_contra other
  -- a fault at a branch of another kind does not show, so it cannot be the one that the run ends in
  have hidden : ∀ fault : Fault, i.run document context
      (Program.runCode document context (code.drop (c.step + 1))) c t = .error fault := by
    intro fault
    let planted : Next := fun c₁ t₁ =>
      if c₁ = c' ∧ t₁ = t' then .error fault else Program.runAt document context code c₁ t₁
    have ends := goesOn fault planted (if_pos ⟨rfl, rfl⟩) fun c₁ t₁ ne => if_neg ne
    have agree : AgreeBegun document (c.step + 1)
        (Program.runCode document context (code.drop (c.step + 1))) planted := by
      intro c₁ t₁ sound₁ within₁ begun₁ step₁
      have ne : ¬ (c₁ = c' ∧ t₁ = t') := by
        rintro ⟨rfl, rfl⟩
        exact other ⟨sound₁, within₁, begun₁, step₁⟩
      show (if c₁ = c' ∧ t₁ = t' then _ else _) = _
      rw [if_neg ne, Program.runAt, step₁]
    obtain ⟨op, flags⟩ := i
    rw [← ends]
    exact (agree.op context (Program.runCode_refines context _) sound h op begun).symm
  have same := (hidden (.unresolved "f")).symm.trans (hidden (.unresolved "g"))
  exact absurd (Fault.unresolved.inj (Except.error.inj same)) (by decide)

end TreePath
