/-
# Continuation — a longer path is scanned in its parts

A scan does not look back: what it makes of the rest of a path depends on the construct that it is inside of,
and neither on the position nor on the steps before.  So a state with more characters and more steps in front
goes through the same states, each with these in front, to the same end: the same steps after those in front,
or the same flaw as many characters later.

`State.after` puts a number of characters and some steps in front of a state.  Every move of the scan commutes
with it (`step_after`, `foldlM_after`, `finish_after`), successes and flaws in one equation.  The one
condition is on a dot, whose position is looked back at by one character: it cannot be the start of the text.

After complete constructs a separator begins the next one as it does at the start of a path.  So

* a path that goes on with a separator has the steps of its parts, and the flaw of its rest (`steps_append`,
  `parse_continued`);
* a path reads the same with and without its root (`steps_root`, `steps_root_dot`).
-/
import TreePath.Path.Nesting
import TreePath.Proofs.Path.Scanning

namespace TreePath

namespace Scan

/-! ## More in front -/

def Mode.later (count : Nat) : Mode → Mode
  | .descent first => .descent (first + count)
  | .member first token => .member (first + count) token
  | .bracket first closers quote quoteAt content =>
    .bracket (first + count) closers quote (quoteAt + count) content
  | mode => mode

def Failure.later (count : Nat) (failure : Failure) : Failure :=
  ⟨failure.position + count, failure.flaw⟩

/-- The same state with a number of characters and with steps in front, the last of them first. -/
def State.after (count : Nat) (front : List Step) (s : State) : State :=
  ⟨s.position + count, s.mode.later count, s.steps ++ front⟩

/-- The same result with a number of characters in front, the value as it is then. -/
def after {α β : Type} (count : Nat) (value : α → β) (result : Except Failure α) :
    Except Failure β :=
  (result.map value).mapError (Failure.later count)

variable {count : Nat} {front : List Step}

theorem after_bind {α β α' β' : Type} {value : α → α'} {value' : β → β'} {result : Except Failure α}
    {more : α → Except Failure β} {more' : α' → Except Failure β'}
    (same : ∀ a, result = .ok a → more' (value a) = after count value' (more a)) :
    (after count value result).bind more' = after count value' (result.bind more) := by
  cases result with
  | error _ => rfl
  | ok a => exact same a rfl

theorem pushAt_after (s : State) (position : Nat) (step : Except PathFlaw Step) :
    (s.after count front).pushAt (position + count) step =
      after count (State.after count front) (s.pushAt position step) := by
  cases step <;> rfl

theorem go_after (s : State) (mode : Mode) :
    (s.after count front).go (mode.later count) = (s.go mode).after count front := by
  simp only [State.after, State.go, Nat.add_right_comm]

theorem separator_after (s : State) (c : Char) :
    (s.after count front).separator c = after count (State.after count front) (s.separator c) := by
  simp only [State.separator]
  split
  · exact congrArg Except.ok (go_after s .dot)
  · exact congrArg Except.ok (go_after s (.bracket s.position [']'] .outside s.position []))
  · exact congrArg Except.ok (go_after (s.push .parent) .ready)
  · rfl
  · rfl
  · rfl

theorem beginMember_after (s : State) (c : Char) :
    (s.after count front).beginMember c = after count (State.after count front) (s.beginMember c) := by
  simp only [State.beginMember]
  split
  · rfl
  · exact congrArg Except.ok (go_after s (.member s.position [c]))

theorem inBracket_after (s : State) (first : Nat) (closers : List Char) (quote : Quote)
    (quoteAt : Nat) (content : List Char) (c : Char) :
    (s.after count front).inBracket (first + count) closers quote (quoteAt + count) content c =
      after count (State.after count front) (s.inBracket first closers quote quoteAt content c) := by
  have go : ∀ (closers : List Char) (quote : Quote) (quoteAt : Nat),
      Except.ok ((s.after count front).go
          (.bracket (first + count) closers quote (quoteAt + count) (c :: content))) =
        after count (State.after count front)
          (.ok (s.go (.bracket first closers quote quoteAt (c :: content)))) :=
    fun closers quote quoteAt =>
      congrArg Except.ok (go_after s (.bracket first closers quote quoteAt (c :: content)))
  simp only [State.inBracket]
  split
  · exact go closers (quote.next c) quoteAt
  split
  · exact go (']' :: closers) quote quoteAt
  split
  · exact go (')' :: closers) quote quoteAt
  split
  · split
    · rfl
    split
    · rw [Nat.add_right_comm, ← pushAt_after, ← go_after]
      rfl
    · exact go closers.tail quote quoteAt
  · split
    · exact go closers (quote.next c) s.position
    · exact go closers (quote.next c) quoteAt

/-- A character is taken as it is without what is in front. -/
theorem step_after {s : State} (begun : s.mode = .dot → 0 < s.position) (c : Char) :
    (s.after count front).step c = after count (State.after count front) (s.step c) := by
  have later : (s.after count front).mode = s.mode.later count := rfl
  cases mode : s.mode with
  | start =>
      simp only [State.step, later, mode, Mode.later]
      split
      · exact congrArg Except.ok (go_after (s.push .root) .root)
      split
      · exact separator_after s c
      · exact beginMember_after s c
  | root =>
      simp only [State.step, later, mode, Mode.later]
      split
      · exact separator_after s c
      · exact beginMember_after s c
  | ready =>
      simp only [State.step, later, mode, Mode.later]
      exact separator_after s c
  | dot =>
      have first : (s.after count front).position - 1 = s.position - 1 + count :=
        Nat.sub_add_comm (begun mode)
      simp only [State.step, later, mode, Mode.later, first]
      split
      · exact congrArg Except.ok (go_after (s.push .descent) (.descent (s.position - 1)))
      split
      · rfl
      · exact beginMember_after s c
  | descent first =>
      simp only [State.step, later, mode, Mode.later]
      split
      · rfl
      · rfl
      · exact separator_after s _
      · exact beginMember_after s _
  | member first token =>
      simp only [State.step, later, mode, Mode.later]
      split
      · rw [pushAt_after]
        exact after_bind fun s _ => separator_after s c
      split
      · rfl
      · exact congrArg Except.ok (go_after s (.member first (c :: token)))
  | bracket first closers quote quoteAt content =>
      simp only [State.step, later, mode, Mode.later]
      exact inBracket_after s first closers quote quoteAt content c

theorem foldlM_after {text : List Char} {s : State} (begun : s.mode = .dot → 0 < s.position) :
    text.foldlM State.step (s.after count front) =
      after count (State.after count front) (text.foldlM State.step s) := by
  induction text generalizing s with
  | nil => rfl
  | cons c rest ih =>
      rw [List.foldlM_cons, List.foldlM_cons, step_after begun]
      refine after_bind fun s' first => ih fun _ => ?_
      rw [position_step first]
      exact Nat.succ_pos _

theorem finish_after (s : State) :
    (s.after count front).finish = after count (front.reverse ++ ·) s.finish := by
  have later : (s.after count front).mode = s.mode.later count := rfl
  have inOrder : ∀ steps : List Step, (steps ++ front).reverse = front.reverse ++ steps.reverse :=
    fun _ => List.reverse_append
  cases mode : s.mode with
  | start | root | ready =>
      simp only [State.finish, later, mode, Mode.later]
      exact congrArg Except.ok (inOrder s.steps)
  | dot | descent first =>
      simp only [State.finish, later, mode, Mode.later]
      rfl
  | member first token =>
      simp only [State.finish, later, mode, Mode.later, pushAt_after]
      cases Subscript.member token.reverse with
      | error _ => rfl
      | ok step => exact congrArg Except.ok (inOrder (step :: s.steps))
  | bracket first closers quote quoteAt content =>
      simp only [State.finish, later, mode, Mode.later]
      split <;> rfl

/-! ## Parts of a path -/

theorem Scans.position {text : List Char} {s s' : State} (scans : Scans s text s') :
    s'.position = s.position + text.length := by
  induction text generalizing s with
  | nil =>
      cases scans
      rfl
  | cons c rest ih =>
      obtain ⟨mid, first, others⟩ := scans_cons_iff.mp scans
      rw [ih others, position_step first, List.length_cons, Nat.add_right_comm, Nat.add_assoc]

/-- A text that is begun like a path is scanned to the end like one, with what was scanned before in
front. -/
theorem scan_eq_after {s : State} (front : List Step) {c : Char}
    (begins : s.step c = (State.start.after s.position front).step c) (rest : List Char) :
    ((c :: rest).foldlM State.step s).bind State.finish =
      after s.position (front.reverse ++ ·) (steps (c :: rest)) := by
  have same : (c :: rest).foldlM State.step s =
      (c :: rest).foldlM State.step (State.start.after s.position front) := by
    rw [List.foldlM_cons, List.foldlM_cons, begins]
  rw [same, foldlM_after (by rintro ⟨⟩)]
  exact after_bind fun s _ => finish_after s

/-- A complete path that goes on with a separator has its steps and those of the rest, or the flaw of the
rest. -/
theorem steps_append {path rest : List Char} {c : Char} (separator : isSeparator c = true)
    {outer : List Step} (first : steps path = .ok outer) :
    steps (path ++ c :: rest) = after path.length (outer ++ ·) (steps (c :: rest)) := by
  obtain ⟨s, scans, finish⟩ := steps_eq_ok_iff.mp first
  have position : s.position = path.length := scans.position.trans (Nat.zero_add _)
  have settled := settled_of_finish finish
  have start : Settled outer.reverse (State.start.after s.position outer.reverse) := .start
  have begins : s.step c = (State.start.after s.position outer.reverse).step c := by
    rw [settled.step separator, start.step separator]
    show _ = State.separator ⟨0 + s.position, .ready, outer.reverse⟩ c
    rw [Nat.zero_add]
  have scanned := scan_eq_after outer.reverse begins rest
  rw [List.reverse_reverse, position] at scanned
  have whole : steps (path ++ c :: rest) = ((c :: rest).foldlM State.step s).bind State.finish := by
    have scans : path.foldlM State.step .start = .ok s := scans
    rw [steps, List.foldlM_append, scans]
    rfl
  exact whole.trans scanned

theorem steps_root {c : Char} (unrooted : c ≠ '$') (rest : List Char) :
    steps ('$' :: c :: rest) = after 1 (.root :: ·) (steps (c :: rest)) := by
  refine scan_eq_after (s := ⟨1, .root, [.root]⟩) [.root] ?_ rest
  show (if isSeparator c = true then _ else _) =
    if c = '$' then _ else if isSeparator c = true then _ else _
  rw [if_neg unrooted]
  rfl

theorem steps_root_dot {c : Char} (unrooted : c ≠ '$') (member : isSeparator c = false)
    (rest : List Char) :
    steps ('$' :: '.' :: c :: rest) = after 2 (.root :: ·) (steps (c :: rest)) := by
  have dot : c ≠ '.' := by
    rintro rfl
    exact absurd member (by decide)
  refine scan_eq_after (s := ⟨2, .dot, [.root]⟩) [.root] ?_ rest
  show (if c = '.' then _ else if isSeparator c = true then _ else _) =
    if c = '$' then _ else if isSeparator c = true then _ else _
  rw [if_neg unrooted, if_neg dot, member]
  rfl

/-- After a complete construct only a separator goes on. -/
theorem isSeparator_of_ready {s s' : State} (ready : s.mode = .ready) {c : Char}
    (goes : s.step c = .ok s') : isSeparator c = true := by
  simp only [State.step, ready, State.separator] at goes
  split at goes
  · rfl
  · rfl
  · rfl
  · cases goes
  · cases goes
  · cases goes

end Scan

namespace Step

theorem parse_eq {expression : String} (text : expression.toList.all Text.isBlank = false) :
    parse expression = (Scan.steps expression.toList).mapError fun failure =>
      .path expression failure.position failure.flaw := by
  rw [parse, text]
  rfl

/-- A path that goes on with a separator has its steps and those of the rest, or the flaw of the rest
behind its characters. -/
theorem parse_continued {path rest : String} {steps : List Step} {c : Char}
    (parsed : parse path = .ok steps) (begins : rest.toList.head? = some c)
    (separator : Scan.isSeparator c = true) :
    parse (path ++ rest) =
      ((Scan.steps rest.toList).map (steps ++ ·)).mapError fun failure =>
        .path (path ++ rest) (failure.position + path.length) failure.flaw := by
  rw [← String.ofList_toList (s := path)] at parsed
  obtain ⟨notBlank, scanned⟩ := parse_eq_ok_iff.mp parsed
  obtain ⟨others, text⟩ := List.head?_eq_some_iff.mp begins
  have notBlank : (path ++ rest).toList.all Text.isBlank = false := by
    rw [String.toList_append, List.all_append, notBlank, Bool.false_and]
  rw [parse_eq notBlank, String.toList_append, text, Scan.steps_append separator scanned,
    String.length_toList]
  cases Scan.steps (c :: others) <;> rfl

/-- What follows a construct in brackets is read behind another path as it is behind this one. -/
theorem parse_replace {path path' rest : String} {s : Scan.State}
    (scans : Scan.Scans .start path.toList s) (ready : s.mode = .ready) {outer outer' steps : List Step}
    (first : parse path = .ok outer) (first' : parse path' = .ok outer')
    (parsed : parse (path ++ rest) = .ok steps) :
    ∃ added, steps = outer ++ added ∧ parse (path' ++ rest) = .ok (outer' ++ added) := by
  cases text : rest.toList with
  | nil =>
      have none : rest = "" := String.toList_eq_nil_iff.mp text
      subst none
      rw [String.append_empty, first] at parsed
      cases parsed
      refine ⟨[], (List.append_nil _).symm, ?_⟩
      rw [String.append_empty, first', List.append_nil]
  | cons c others =>
      have begins : rest.toList.head? = some c := by rw [text]; rfl
      have separator : Scan.isSeparator c = true := by
        rw [← String.ofList_toList (s := path ++ rest)] at parsed
        obtain ⟨_, scanned⟩ := parse_eq_ok_iff.mp parsed
        obtain ⟨last, whole, _⟩ := Scan.steps_eq_ok_iff.mp scanned
        have scans : path.toList.foldlM Scan.State.step .start = .ok s := scans
        rw [String.toList_append, text, Scan.Scans, List.foldlM_append, scans] at whole
        obtain ⟨next, goes, _⟩ := Scan.scans_cons_iff.mp whole
        exact Scan.isSeparator_of_ready ready goes
      rw [parse_continued first begins separator] at parsed
      rw [parse_continued first' begins separator]
      cases scanned : Scan.steps rest.toList with
      | error _ =>
          rw [scanned] at parsed
          cases parsed
      | ok added =>
          rw [scanned] at parsed
          cases parsed
          exact ⟨added, rfl, rfl⟩

end Step

end TreePath
