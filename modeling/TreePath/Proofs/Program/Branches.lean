/-
# Branches — what the matches of a compiled path are

The matches are the branches that the operations reach, in order.  Each begins at the root of the document
and goes on with keys and with calls of functions that the path names.

This module has what is known of one match, whatever the path:

* it is a branch along which the path replays (`exists_replays_of_records`), so its labels lead from the
  document to its value;
* wherever the branch is cut on the way, the labels up to there lead to what was current there, and those
  after it from there to the value (`Replays.of_append`);
* the calls among its labels are those of functions that the path names and that were found
  (`exists_named_of_records`).

The proofs go along `Below`, the relation of a branch to one that it was taken further from.
-/
import TreePath.Proofs.Program.Replay

namespace TreePath

namespace History

variable {program : Program} {context : Option Registry} {document : Json}

theorem length_labels (h : History) : h.labels.length = h.length := by
  rw [labels, List.length_reverse, List.length_map]

/-- What is left of a branch when its newest entries are taken off leads as the branch did, and from
there the labels taken off lead to the value of the branch. -/
theorem Replays.of_append {g h : History} (replays : (g ++ h).Replays program context document)
    (left : h ≠ []) :
    h.Replays program context document ∧
      program.replay? context g.labels (h.value document) = some ((g ++ h).value document) := by
  induction g with
  | nil => exact ⟨replays, rfl⟩
  | cons newest g ih =>
      obtain ⟨label, value⟩ := newest
      rw [List.cons_append] at replays ⊢
      generalize whole : g ++ h = branch at replays ih
      cases replays with
      | root => exact absurd (List.append_eq_nil_iff.mp whole).2 left
      | label rest _ leads =>
          obtain ⟨kept, before⟩ := ih rest
          rw [labels_cons]
          exact ⟨kept, Program.replay?_concat before leads⟩

/-- A branch whose calls are those of functions with names of a kind. -/
def CallsNamed (named : String → Prop) (h : History) : Prop :=
  ∀ text, .call text ∈ h.labels → ∃ name, named name ∧ text = name ++ "()"

variable {named : String → Prop}

theorem CallsNamed.key {h : History} (calls : h.CallsNamed named) (key : Key) (child : Json) :
    CallsNamed named ((.key key, child) :: h) := by
  intro text mem
  rw [labels_cons] at mem
  rcases List.mem_append.mp mem with mem | mem
  · exact calls text mem
  · cases List.mem_singleton.mp mem

theorem Below.callsNamed {h h' : History} (below : h.Below document h')
    (calls : h.CallsNamed named) : h'.CallsNamed named := by
  induction below with
  | here => exact calls
  | child _ _ ih => exact ih.key _ _

end History

theorem Op.Successor.callsNamed {document : Json} {context : Option Registry}
    {named : String → Prop} {op : Op} {h h' : History} (step : op.Successor document context h h')
    (resolves : ∀ name bound f, op = .function name bound →
      Trace.resolve context name bound = .ok f → named name)
    (calls : h.CallsNamed named) : h'.CallsNamed named := by
  cases step with
  | start _ =>
      intro text mem
      cases List.mem_singleton.mp mem
  | chosen _ _ => exact calls.key _ _
  | below below => exact below.callsNamed calls
  | up eq _ =>
      subst eq
      intro text mem
      refine calls text ?_
      rw [History.labels_cons]
      exact List.mem_append_left _ mem
  | call eq resolved _ =>
      intro text mem
      rw [History.labels_cons] at mem
      rcases List.mem_append.mp mem with mem | mem
      · exact calls text mem
      · cases List.mem_singleton.mp mem
        exact ⟨_, resolves _ _ _ eq resolved, rfl⟩

namespace Program

variable {document : Json} {context : Option Registry}

theorem exists_replays_of_records {expression : String} {options : Options} {steps : List Step}
    {ops : List Op} (lowered : Step.lower options steps = .ok ops) (document_proper : document.Proper)
    (options_proper : options.functions.Proper)
    (context_proper : ∀ functions, context = some functions → functions.Proper)
    {records : List Match}
    (matched : (assemble expression steps options ops).records document context = .ok records) :
    ∃ hs, reached document context ops [(.root, document)] = .ok hs ∧
      (∀ h ∈ hs, h.Replays (assemble expression steps options ops) context document) ∧
      records = hs.map (History.toMatch document) := by
  obtain ⟨hs, reached, _, rfl⟩ := reached_of_records (Step.plain_of_lower lowered) matched
  refine ⟨hs, reached, reached_induction ?_ .root reached, rfl⟩
  intro op mem h h' replays step
  refine step.replays ?_ ?_ document_proper replays
  · rintro name bound rfl
    obtain ⟨_, _, _, compiles⟩ := Step.exists_of_mem_lower lowered mem
    rw [functions_assemble]
    cases compiles
    rfl
  · intro name f found
    rw [← functions_assemble expression steps options ops] at options_proper
    exact proper_of_function? options_proper context_proper found

theorem labels_ne_nil_of_records {expression : String} {options : Options} {steps : List Step}
    {ops : List Op} (lowered : Step.lower options steps = .ok ops) {records : List Match}
    (matched : (assemble expression steps options ops).records document context = .ok records) :
    ∀ m ∈ records, m.labels ≠ [] := by
  obtain ⟨hs, _, begun, rfl⟩ := reached_of_records (Step.plain_of_lower lowered) matched
  intro m mem
  obtain ⟨h, h_mem, rfl⟩ := List.mem_map.mp mem
  show h.labels ≠ []
  rw [← List.length_pos_iff, History.length_labels, List.length_pos_iff]
  exact begun h h_mem

/-- The calls among the labels of a match are those of functions that the path names and that have been
found. -/
theorem exists_named_of_records {expression : String} {options : Options} {steps : List Step}
    {ops : List Op} (lowered : Step.lower options steps = .ok ops) {named : String → Prop}
    (resolves : ∀ name f, .function name ∈ steps →
      Trace.resolve context name (options.functions.find? name) = .ok f → named name)
    {records : List Match}
    (matched : (assemble expression steps options ops).records document context = .ok records) :
    ∀ m ∈ records, ∀ text, .call text ∈ m.labels → ∃ name, named name ∧ text = name ++ "()" := by
  obtain ⟨hs, reached, _, rfl⟩ := reached_of_records (Step.plain_of_lower lowered) matched
  have calls : ∀ h ∈ hs, h.CallsNamed named := by
    refine reached_induction ?_ ?_ reached
    · intro op mem h h' calls successor
      refine successor.callsNamed ?_ calls
      rintro name bound f rfl resolved
      obtain ⟨step, step_mem, _, compiles⟩ := Step.exists_of_mem_lower lowered mem
      cases compiles
      exact resolves name f step_mem resolved
    · intro text mem
      cases List.mem_singleton.mp mem
  intro m mem
  obtain ⟨h, h_mem, rfl⟩ := List.mem_map.mp mem
  exact calls h h_mem

end Program

end TreePath
