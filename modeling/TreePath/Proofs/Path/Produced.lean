/-
# Produced — where the steps of a path come from

A scan adds the root for the first character or not at all.  Besides it, the descent and the parent, every
step of a path is what a bracket or a dotted member stands for.  So what holds of these holds of every step
that was read, and other modules need not look at the scan again: they prove their property of
`Subscript.classify` and of `Subscript.member`, and use `Step.exists_produced_of_parse`.

The invariant is `Produces`, on states of the scan.  It also has what is collected of a member, since a member
is classified only after the scan has left it.  `Adds` is how the steps of a state may look, and each kind of
move keeps it; `Produces.step` is the case distinction over the modes.
-/
import TreePath.Proofs.Path.Scanning
import TreePath.Proofs.Results

namespace TreePath

namespace Scan

/-- A step that a scan can add after its first character. -/
inductive Produced : Step → Prop
  | descent : Produced .descent
  | parent : Produced .parent
  | bracket {content : List Char} {step : Step} :
      Subscript.classify (Text.trim content) = .ok step → Produced step
  | member {token : List Char} {step : Step} : (∀ c ∈ token, isMember c = true) →
      Subscript.member token = .ok step → Produced step

/-- Steps that a scan can have added after its root, if it has one; the last first. -/
def Adds (steps : List Step) : Prop :=
  ∃ added, (steps = added ∨ steps = added ++ [.root]) ∧ ∀ step ∈ added, Produced step

/-- The steps of the state are some that a scan can have added, and none before its first character;
what is collected of a member may stand in one. -/
structure Produces (s : State) : Prop where
  added : Adds s.steps
  start : s.mode = .start → s.steps = []
  token : ∀ first token, s.mode = .member first token → ∀ c ∈ token, isMember c = true

theorem Adds.cons {steps : List Step} (h : Adds steps) {step : Step} (produced : Produced step) :
    Adds (step :: steps) := by
  obtain ⟨added, front, each⟩ := h
  refine ⟨step :: added, ?_, ?_⟩
  · exact front.imp (congrArg (step :: ·)) (congrArg (step :: ·))
  · intro other mem
    rcases List.mem_cons.mp mem with rfl | mem
    · exact produced
    · exact each other mem

theorem Adds.produces {s : State} (h : Adds s.steps) (begun : s.mode ≠ .start)
    (outside : ∀ first token, s.mode ≠ .member first token) : Produces s :=
  ⟨h, fun start => absurd start begun, fun first token member => absurd member (outside first token)⟩

theorem Adds.inMember {steps : List Step} (h : Adds steps) {position first : Nat} {token : List Char}
    (plain : ∀ c ∈ token, isMember c = true) : Produces ⟨position, .member first token, steps⟩ := by
  refine ⟨h, by rintro ⟨⟩, ?_⟩
  rintro _ _ ⟨⟩
  exact plain

theorem Adds.pushAt {s s' : State} (h : Adds s.steps) {position : Nat}
    {step : Except PathFlaw Step} (each : ∀ x, step = .ok x → Produced x)
    (result : s.pushAt position step = .ok s') : Adds s'.steps ∧ s'.mode = s.mode := by
  cases step with
  | error _ => cases result
  | ok x =>
      cases result
      exact ⟨h.cons (each x rfl), rfl⟩

theorem Adds.separator {s s' : State} (h : Adds s.steps) {c : Char}
    (result : s.separator c = .ok s') : Produces s' := by
  simp only [State.separator] at result
  split at result
  · cases result
    exact Adds.produces h (by rintro ⟨⟩) (by rintro _ _ ⟨⟩)
  · cases result
    exact Adds.produces h (by rintro ⟨⟩) (by rintro _ _ ⟨⟩)
  · cases result
    exact Adds.produces (h.cons .parent) (by rintro ⟨⟩) (by rintro _ _ ⟨⟩)
  · cases result
  · cases result
  · cases result

theorem isMember_of_ne {c : Char} (plain : isSeparator c = false) (closing : c ≠ ']') :
    isMember c = true := by
  simp [isMember, plain, closing]

theorem Adds.beginMember {s s' : State} (h : Adds s.steps) {c : Char}
    (plain : isSeparator c = false) (result : s.beginMember c = .ok s') : Produces s' := by
  rw [State.beginMember] at result
  split at result
  · cases result
  · rename_i closing
    cases result
    refine h.inMember ?_
    intro d mem
    rw [List.mem_singleton.mp mem]
    exact isMember_of_ne plain closing

theorem Adds.inBracket {s s' : State} (h : Adds s.steps) {first : Nat} {closers : List Char}
    {quote : Quote} {quoteAt : Nat} {content : List Char} {c : Char}
    (result : s.inBracket first closers quote quoteAt content c = .ok s') : Produces s' := by
  rcases inBracket_eq_ok result with ⟨_, _, _, _, rfl⟩ | ⟨_, _, _, step, classified, rfl⟩
  · exact Adds.produces h (by rintro ⟨⟩) (by rintro _ _ ⟨⟩)
  · exact Adds.produces (h.cons (.bracket classified)) (by rintro ⟨⟩) (by rintro _ _ ⟨⟩)

theorem Produces.step {s s' : State} (h : Produces s) {c : Char} (result : s.step c = .ok s') :
    Produces s' := by
  simp only [State.step] at result
  split at result
  · rename_i start
    split at result
    · cases result
      refine Adds.produces ⟨[], .inr ?_, List.forall_mem_nil _⟩ (by rintro ⟨⟩) (by rintro _ _ ⟨⟩)
      show Step.root :: s.steps = [] ++ [.root]
      rw [h.start start]
      rfl
    split at result
    · exact h.added.separator result
    · rename_i plain
      exact h.added.beginMember (by simpa using plain) result
  · split at result
    · exact h.added.separator result
    · rename_i plain
      exact h.added.beginMember (by simpa using plain) result
  · exact h.added.separator result
  · split at result
    · cases result
      exact Adds.produces (h.added.cons .descent) (by rintro ⟨⟩) (by rintro _ _ ⟨⟩)
    split at result
    · cases result
    · rename_i plain
      exact h.added.beginMember (by simpa using plain) result
  · split at result
    · cases result
    · cases result
    · exact h.added.separator result
    · rename_i dot parent bracket
      have plain : isSeparator c = false := by
        simp only [isSeparator, Bool.or_eq_false_iff, decide_eq_false_iff_not]
        exact ⟨⟨dot, bracket⟩, parent⟩
      exact h.added.beginMember plain result
  · rename_i first token inside
    have collected := h.token first token inside
    split at result
    · obtain ⟨next, pushed, result⟩ := bind_eq_ok_iff.mp result
      refine (h.added.pushAt (fun _ => .member ?_) pushed).1.separator result
      intro d mem
      exact collected d (List.mem_reverse.mp mem)
    split at result
    · cases result
    · rename_i plain closing
      cases result
      refine h.added.inMember ?_
      intro d mem
      rcases List.mem_cons.mp mem with rfl | mem
      · exact isMember_of_ne (by simpa using plain) closing
      · exact collected d mem
  · exact h.added.inBracket result

theorem Produces.scans {s s' : State} (h : Produces s) {text : List Char}
    (scans : Scans s text s') : Produces s' := by
  induction text generalizing s with
  | nil =>
      cases scans
      exact h
  | cons c rest ih =>
      obtain ⟨mid, first, others⟩ := scans_cons_iff.mp scans
      exact ih (h.step first) others

theorem Produces.settled {s : State} (h : Produces s) {steps : List Step}
    (settled : Settled steps s) : Adds steps := by
  cases settled with
  | start => exact h.added
  | root => exact h.added
  | ready => exact h.added
  | @member _ first token _ _ member eq =>
      subst eq
      refine h.added.cons (.member ?_ member)
      intro c mem
      exact h.token first token rfl c (List.mem_reverse.mp mem)

/-- The root is not what a bracket or a member stands for. -/
theorem Produced.ne_root {step : Step} (h : Produced step) : step ≠ .root := by
  rintro rfl
  cases h with
  | bracket classified =>
      unfold Subscript.classify Subscript.selector at classified
      repeat' split at classified
      all_goals first | cases classified | obtain ⟨_, _, ⟨⟩⟩ := map_eq_ok_iff.mp classified
  | member _ member =>
      unfold Subscript.member at member
      repeat' split at member
      all_goals cases member

end Scan

/-- The steps that are read from an expression can be added by a scan, after the root if they begin with
it. -/
theorem Step.exists_produced_of_parse {expression : String} {steps : List Step}
    (parsed : parse expression = .ok steps) :
    ∃ added, (steps = added ∨ steps = .root :: added) ∧ ∀ step ∈ added, Scan.Produced step := by
  rw [← String.ofList_toList (s := expression)] at parsed
  obtain ⟨_, scanned⟩ := parse_eq_ok_iff.mp parsed
  obtain ⟨s, scans, finish⟩ := Scan.steps_eq_ok_iff.mp scanned
  have start : Scan.Produces .start :=
    ⟨⟨[], .inl rfl, List.forall_mem_nil _⟩, fun _ => rfl, by rintro _ _ ⟨⟩⟩
  obtain ⟨added, front, each⟩ := (start.scans scans).settled (Scan.settled_of_finish finish)
  refine ⟨added.reverse, ?_, fun step mem => each step (List.mem_reverse.mp mem)⟩
  rcases front with eq | eq
  · exact .inl (List.reverse_eq_iff.mp eq)
  · rw [List.reverse_eq_iff, List.reverse_append] at eq
    exact .inr eq

theorem Step.root_notMem_tail_of_parse {expression : String} {steps : List Step}
    (parsed : parse expression = .ok steps) : .root ∉ steps.tail := by
  obtain ⟨added, front, each⟩ := exists_produced_of_parse parsed
  intro mem
  rcases front with rfl | rfl
  · exact (each _ (List.mem_of_mem_tail mem)).ne_root rfl
  · exact (each _ mem).ne_root rfl

end TreePath
