/-
# Parents — what a path finds when it goes back

A branch is the chain of its labels and values, whatever operations built it: a descent and a list push what
they pass through, and a step back takes off one entry and no more.  So a path that goes on with steps back
finds, for each match in order, the value that the labels of the match lead to without the last of them, and
nothing for a match with no label to spare for each step.

`above_of_records` says this for any number of steps back, behind any path that can be read and in any proper
document.  Order is kept, and so are repetitions: two matches with one parent give it twice.

`Above` is the relation between a match and the one in its place.  It says of the labels that were taken back
what they led through, a key from a container to its child and a call from its argument to its result.
-/
import TreePath.Proofs.Path.Spelling
import TreePath.Proofs.Program.Branches

namespace TreePath

/-! ## Steps back in an expression -/

namespace Spelling

theorem texts_parents (count : Nat) :
    texts (List.replicate count .parent) = List.replicate count '^' := by
  induction count with
  | zero => rfl
  | succ count ih =>
      rw [List.replicate_succ, List.replicate_succ, texts, ih]
      rfl

theorem steps_parents (count : Nat) :
    (List.replicate count Spelling.parent).flatMap steps = List.replicate count .parent := by
  induction count with
  | zero => rfl
  | succ count ih =>
      rw [List.replicate_succ, List.replicate_succ, List.flatMap_cons, ih]
      rfl

end Spelling

namespace Step

theorem parse_append_texts {path : String} {steps : List Step} (parsed : parse path = .ok steps)
    (more : List Spelling) :
    parse (path ++ String.ofList (Spelling.texts more)) =
      .ok (steps ++ more.flatMap Spelling.steps) := by
  rw [← String.ofList_toList (s := path)] at parsed ⊢
  obtain ⟨notBlank, scanned⟩ := parse_eq_ok_iff.mp parsed
  obtain ⟨s, scans, finish⟩ := Scan.steps_eq_ok_iff.mp scanned
  obtain ⟨s', scans', settled⟩ := Spelling.scan_texts more (Scan.settled_of_finish finish)
  rw [← String.ofList_append]
  refine parse_eq_ok_iff.mpr ⟨?_, Scan.steps_eq_ok_iff.mpr ⟨s', scans.append scans', ?_⟩⟩
  · rw [List.all_append, notBlank, Bool.false_and]
  · rw [settled.finish, List.reverse_append, List.reverse_reverse, List.reverse_reverse]

theorem lower_parents (options : Options) (count : Nat) :
    lower options (List.replicate count .parent) = .ok (List.replicate count .parent) := by
  induction count with
  | zero => rfl
  | succ count ih =>
      show lower options ([.parent] ++ List.replicate count .parent) = _
      rw [lower_append, ih]
      rfl

end Step

/-! ## Steps back in a branch -/

namespace Program

variable {document : Json} {context : Option Registry}

theorem answer_parents (count : Nat) {h : History} (begun : h ≠ []) :
    answer document context (List.replicate count .parent ++ [.emit]) h =
      .ok (if count < h.length then [History.toMatch document (h.drop count)] else []) := by
  induction count generalizing h with
  | zero =>
      rw [if_pos (List.length_pos_of_ne_nil begun)]
      exact answer_emit begun
  | succ count ih =>
      rw [List.replicate_succ, List.cons_append, answer, expected_of_ne_emit (by simp),
        Op.successors_parent]
      cases h with
      | nil => exact absurd rfl begun
      | cons newest older =>
          cases older with
          | nil =>
              show Except.ok [] = _
              rw [List.length_singleton, if_neg (by omega)]
          | cons above rest =>
              show History.runAll _ [above :: rest] = _
              rw [History.runAll_singleton, ih (List.cons_ne_nil above rest)]
              simp only [List.length_cons, Nat.add_lt_add_iff_right, List.drop_succ_cons]

/-- A match in the place of another whose last `count` labels are taken back: the labels that are left
lead from the document to its value, and from there the labels taken back lead to the other value, a
key from a container to its child and a call from its argument to its result. -/
def Above (program : Program) (context : Option Registry) (document : Json) (count : Nat)
    (m above : Match) : Prop :=
  ∃ left taken, above.labels = .root :: left ∧ m.labels = above.labels ++ taken ∧
    taken.length = count ∧
    program.replay? context left document = some above.value ∧
    program.replay? context taken above.value = some m.value

theorem above_drop {program : Program} {count : Nat} {h : History}
    (replays : h.Replays program context document) (more : count < h.length) :
    program.Above context document count (h.toMatch document)
      (History.toMatch document (h.drop count)) := by
  have left : h.drop count ≠ [] := by
    intro none
    have := List.drop_eq_nil_iff.mp none
    omega
  have whole : h.take count ++ h.drop count = h := List.take_append_drop count h
  have split : History.Replays program context document (h.take count ++ h.drop count) := by
    rw [whole]
    exact replays
  obtain ⟨kept, taken⟩ := split.of_append left
  obtain ⟨labels, eq, leads⟩ := kept.replay?
  rw [whole] at taken
  refine ⟨labels, History.labels (h.take count), eq, ?_, ?_, leads, taken⟩
  · show h.labels = History.labels (h.drop count) ++ _
    rw [← History.labels_append, whole]
  · rw [History.length_labels, List.length_take]
    omega

theorem forall₂_above {program : Program} (count : Nat) {hs : List History}
    (replays : ∀ h ∈ hs, h.Replays program context document) :
    List.Forall₂ (program.Above context document count)
      ((hs.map (History.toMatch document)).filter fun m => count < m.labels.length)
      (hs.flatMap fun h =>
        if count < h.length then [History.toMatch document (h.drop count)] else []) := by
  induction hs with
  | nil => exact .nil
  | cons h hs ih =>
      have others := ih fun h mem => replays h (List.mem_cons_of_mem _ mem)
      have length : (h.toMatch document).labels.length = h.length := h.length_labels
      rw [List.map_cons, List.filter_cons, List.flatMap_cons, length]
      by_cases more : count < h.length
      · rw [if_pos (decide_eq_true more), if_pos more]
        exact .cons (above_drop (replays h List.mem_cons_self) more) others
      · rw [if_neg (by simpa using more), if_neg more]
        exact others

/-- A path that goes on with `count` steps back has, for each match with more than `count` labels, in
order, the match whose last `count` labels are taken back. -/
theorem above_of_records {expression : String} {options : Options} {program : Program}
    (compiled : compile expression options = .ok program)
    (document_proper : document.Proper) (options_proper : options.functions.Proper)
    (context_proper : ∀ functions, context = some functions → functions.Proper)
    {records : List Match} (matched : program.records document context = .ok records)
    (count : Nat) :
    ∃ higher found,
      compile (expression ++ String.ofList (List.replicate count '^')) options = .ok higher ∧
      higher.records document context = .ok found ∧
      List.Forall₂ (program.Above context document count)
        (records.filter fun m => count < m.labels.length) found := by
  obtain ⟨steps, ops, parsed, lowered, rfl⟩ := compile_eq_ok_iff.mp compiled
  obtain ⟨hs, reached, replays, rfl⟩ :=
    exists_replays_of_records lowered document_proper options_proper context_proper matched
  have parsed' := Step.parse_append_texts parsed (List.replicate count .parent)
  rw [Spelling.texts_parents, Spelling.steps_parents] at parsed'
  have lowered' : Step.lower options (steps ++ List.replicate count .parent) =
      .ok (ops ++ List.replicate count .parent) := by
    rw [Step.lower_append, lowered, Step.lower_parents]
    rfl
  refine ⟨_, _, compile_eq_ok_iff.mpr ⟨_, _, parsed', lowered', rfl⟩, ?_, forall₂_above count replays⟩
  rw [records_assemble, List.append_assoc, answer_append (Step.plain_of_lower lowered) reached]
  refine History.runAll_flatMap ?_
  intro h mem
  obtain ⟨_, labels, _⟩ := (replays h mem).replay?
  refine answer_parents count ?_
  rintro rfl
  cases labels

/-- Two steps back from the first item at every depth: there is no way back from the outer one, and the
inner one leads to the root. -/
theorem above_of_records_descent :
    let document := Json.arr [.arr [.null]]
    let program := assemble "$..[0]" [.root, .descent, .property (.index 0)] .default
      [.descent, .property (.index 0)]
    let zero := Label.key (.index 0)
    compile "$..[0]" .default = .ok program ∧
      program.records document none =
        .ok [⟨[.root, zero], .arr [.null]⟩, ⟨[.root, zero, zero], .null⟩] ∧
      ∃ higher, compile "$..[0]^^" .default = .ok higher ∧
        higher.records document none = .ok [⟨[.root], document⟩] := by
  intro document program zero
  have compiled : compile "$..[0]" .default = .ok program :=
    compile_eq_ok_iff.mpr ⟨_, _, by rfl, by rfl, rfl⟩
  have matched : program.records document none =
      .ok [⟨[.root, zero], .arr [.null]⟩, ⟨[.root, zero, zero], .null⟩] := by
    rw [records_eq_recordsByHistory]
    rfl
  have document_proper : document.Proper :=
    ⟨show 1 ≤ 1 <<< 64 by decide, ⟨show 1 ≤ 1 <<< 64 by decide, trivial, trivial⟩, trivial⟩
  have functions : Options.default.functions.Proper := by
    intro _ _ found
    cases found
  obtain ⟨higher, found, compiled', matched', each⟩ :=
    above_of_records compiled document_proper functions (by rintro _ ⟨⟩) matched 2
  refine ⟨compiled, matched, higher, compiled', ?_⟩
  have kept : List.Forall₂ (program.Above none document 2) [⟨[.root, zero, zero], .null⟩] found :=
    each
  cases kept with
  | @cons _ above _ _ first others =>
      cases others
      obtain ⟨labels, value⟩ := above
      obtain ⟨left, taken, rfl, whole, two, leads, _⟩ := first
      have none : left = [] := by
        have lengths := congrArg List.length whole
        simp only [List.length_append, List.length_cons, List.length_nil, two] at lengths
        exact List.length_eq_zero_iff.mp (by omega)
      subst none
      have same : document = value := Option.some.inj leads
      rw [matched', ← same]

end Program

end TreePath
