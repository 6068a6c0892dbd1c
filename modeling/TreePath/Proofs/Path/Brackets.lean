/-
# Brackets — what is known of a path that is a root and one bracket

A character inside a bracket keeps the scan there or ends the bracket (`Within.step`), and every character
after that begins a further step.  So if the scan of a text behind `$[` gives one step after the root, then
that step is what the text stands for without its last character: no bracket inside it was taken for the end.
That is `classify_of_steps`, the only result that is used elsewhere.

The second half is about what comes after a complete construct.  A path that is read to the end has more
steps than were complete before, unless nothing follows (`exists_append_of_scans`).  The lemma that carries it
is `finish_ne_nil`: after any character there is a step, or a construct is begun that adds one when it ends.
-/
import TreePath.Proofs.Path.Continuation
import TreePath.Proofs.Results

namespace TreePath

namespace Scan

/-! ## The end of a bracket -/

section Within

variable {steps : List Step} {closers content : List Char} {quote : Quote} {s s' : State}

theorem Within.step {c : Char} (h : Within steps closers quote content s)
    (taken : s.step c = .ok s') :
    (∃ closers' quote', Within steps closers' quote' (c :: content) s') ∨
      ∃ position step, Subscript.classify (Text.trim content.reverse) = .ok step ∧
        s' = ⟨position, .ready, step :: steps⟩ := by
  cases h with
  | @mk position first quoteAt =>
      rcases inBracket_eq_ok taken with ⟨closers', quote', _, _, rfl⟩ | ⟨_, _, _, step, classified, rfl⟩
      · exact .inl ⟨closers', quote', .mk⟩
      · exact .inr ⟨_, step, classified, rfl⟩

theorem Within.scans {text : List Char} (h : Within steps closers quote content s)
    (scans : Scans s text s') :
    (∃ closers' quote', Within steps closers' quote' (text.reverse ++ content) s') ∨
      ∃ body c rest position step, text = body ++ c :: rest ∧
        Subscript.classify (Text.trim (content.reverse ++ body)) = .ok step ∧
        Scans ⟨position, .ready, step :: steps⟩ rest s' := by
  induction text generalizing s closers quote content with
  | nil =>
      cases scans
      exact .inl ⟨closers, quote, h⟩
  | cons c text ih =>
      obtain ⟨mid, first, others⟩ := scans_cons_iff.mp scans
      rcases h.step first with ⟨closers', quote', within⟩ | ⟨position, step, classified, rfl⟩
      · rcases ih within others with ⟨closers'', quote'', within⟩ | ended
        · rw [List.reverse_cons, List.append_assoc]
          exact .inl ⟨closers'', quote'', within⟩
        · obtain ⟨body, last, rest, position, step, rfl, classified, others⟩ := ended
          rw [List.reverse_cons, List.append_assoc] at classified
          exact .inr ⟨c :: body, last, rest, position, step, rfl, classified, others⟩
      · refine .inr ⟨[], c, text, position, step, rfl, ?_, others⟩
        rw [List.append_nil]
        exact classified

theorem Within.finish (h : Within steps closers quote content s) :
    ∃ failure, s.finish = .error failure := by
  cases h with
  | mk =>
      simp only [State.finish]
      split
      · exact ⟨_, rfl⟩
      · exact ⟨_, rfl⟩

end Within

/-! ## What comes after -/

theorem finish_ready_cons (position : Nat) (step : Step) (steps : List Step) :
    State.finish ⟨position, .ready, step :: steps⟩ ≠ .ok [] := by
  intro finish
  have none : (step :: steps).reverse = [] := Except.ok.inj finish
  simp at none

theorem finish_separator {s s' : State} {c : Char} (taken : s.separator c = .ok s') :
    s'.finish ≠ .ok [] := by
  simp only [State.separator] at taken
  split at taken
  · cases taken
    rintro ⟨⟩
  · cases taken
    rintro ⟨⟩
  · cases taken
    exact finish_ready_cons _ .parent s.steps
  · cases taken
  · cases taken
  · cases taken

theorem finish_member (position first : Nat) (token : List Char) (steps : List Step) :
    State.finish ⟨position, .member first token, steps⟩ ≠ .ok [] := by
  intro finish
  have settled := settled_of_finish finish
  rw [List.reverse_nil] at settled
  cases settled with
  | member _ eq => cases eq

theorem finish_beginMember {s s' : State} {c : Char} (taken : s.beginMember c = .ok s') :
    s'.finish ≠ .ok [] := by
  simp only [State.beginMember] at taken
  split at taken
  · cases taken
  · cases taken
    exact finish_member _ _ _ _

/-- After a character there is a step, or a construct is begun that adds one. -/
theorem finish_ne_nil {s s' : State} {c : Char} (taken : s.step c = .ok s') :
    s'.finish ≠ .ok [] := by
  obtain ⟨position, mode, steps⟩ := s
  cases mode with
  | start =>
      simp only [State.step] at taken
      split at taken
      · cases taken
        intro finish
        have none : (Step.root :: steps).reverse = [] := Except.ok.inj finish
        simp at none
      split at taken
      · exact finish_separator taken
      · exact finish_beginMember taken
  | root =>
      simp only [State.step] at taken
      split at taken
      · exact finish_separator taken
      · exact finish_beginMember taken
  | ready => exact finish_separator taken
  | dot =>
      simp only [State.step] at taken
      split at taken
      · cases taken
        rintro ⟨⟩
      split at taken
      · cases taken
      · exact finish_beginMember taken
  | descent first =>
      simp only [State.step] at taken
      split at taken
      · cases taken
      · cases taken
      · exact finish_separator taken
      · exact finish_beginMember taken
  | member first token =>
      simp only [State.step] at taken
      split at taken
      · obtain ⟨mid, _, taken⟩ := bind_eq_ok_iff.mp taken
        exact finish_separator taken
      split at taken
      · cases taken
      · cases taken
        exact finish_member _ _ _ _
  | bracket first closers quote quoteAt content =>
      have within : Within steps closers quote content
          ⟨position, .bracket first closers quote quoteAt content, steps⟩ := .mk
      rcases within.step taken with ⟨_, _, within⟩ | ⟨position, step, _, rfl⟩
      · obtain ⟨failure, flawed⟩ := within.finish
        rw [flawed]
        rintro ⟨⟩
      · exact finish_ready_cons position step steps

theorem finish_ne_nil_of_scans {s s' : State} {text : List Char} (nonempty : text ≠ [])
    (scans : Scans s text s') : s'.finish ≠ .ok [] := by
  induction text generalizing s with
  | nil => exact absurd rfl nonempty
  | cons c rest ih =>
      obtain ⟨mid, first, others⟩ := scans_cons_iff.mp scans
      by_cases last : rest = []
      · subst last
        cases others
        exact finish_ne_nil first
      · exact ih last others

/-- A text after complete constructs adds steps behind theirs, and none only if it is empty. -/
theorem exists_append_of_scans {position : Nat} {steps parsed : List Step} {text : List Char}
    {s : State} (scans : Scans ⟨position, .ready, steps⟩ text s) (finish : s.finish = .ok parsed) :
    ∃ added, parsed = steps.reverse ++ added ∧ (text ≠ [] → added ≠ []) := by
  have front : State.after position steps ⟨0, .ready, []⟩ = ⟨position, .ready, steps⟩ := by
    simp [State.after, Mode.later]
  have scanned : text.foldlM State.step ⟨position, .ready, steps⟩ = .ok s := scans
  rw [← front, foldlM_after (by rintro ⟨⟩)] at scanned
  cases alone : text.foldlM State.step ⟨0, .ready, []⟩ with
  | error _ =>
      rw [alone] at scanned
      cases scanned
  | ok s' =>
      rw [alone] at scanned
      cases scanned
      rw [finish_after] at finish
      cases ended : s'.finish with
      | error _ =>
          rw [ended] at finish
          cases finish
      | ok added =>
          rw [ended] at finish
          cases finish
          refine ⟨added, rfl, ?_⟩
          rintro nonempty rfl
          exact finish_ne_nil_of_scans nonempty alone ended

/-- The one step that a text in brackets adds is what it stands for up to its last character. -/
theorem classify_of_steps {content : List Char} {c : Char} {step : Step}
    (scanned : steps ('$' :: '[' :: (content ++ [c])) = .ok [.root, step]) :
    Subscript.classify (Text.trim content) = .ok step := by
  obtain ⟨s, scans, finish⟩ := steps_eq_ok_iff.mp scanned
  obtain ⟨_, root, scans⟩ := scans_cons_iff.mp scans
  cases root
  obtain ⟨_, opening, scans⟩ := scans_cons_iff.mp scans
  cases opening
  have within : Within [.root] [']'] .outside [] ⟨2, .bracket 1 [']'] .outside 1 [], [.root]⟩ := .mk
  rcases within.scans scans with ⟨_, _, within⟩ | ended
  · obtain ⟨failure, flawed⟩ := within.finish
    rw [flawed] at finish
    cases finish
  · obtain ⟨body, c', rest, position, step', text, classified, scans⟩ := ended
    obtain ⟨added, parsed, more⟩ := exists_append_of_scans scans finish
    cases parsed
    have last : rest = [] := by
      by_contra nonempty
      exact more nonempty rfl
    subst last
    rw [(List.append_inj' text rfl).1]
    exact classified

end Scan

end TreePath
