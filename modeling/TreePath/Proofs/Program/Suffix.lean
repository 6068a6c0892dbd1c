/-
# Suffix — a path that goes on from its matches

If the rest of a path has only steps that see the current value alone (`Step.IsLocal`), then the path finds
what the rest finds in each match of the start, taken as a document of its own.  The labels of the match take
the place of the root, the matches stand in the order of the traversal, and the first fault ends them.

`records_append` says this of a path and of its rest behind a root, with matches and faults.  It does not
matter whether the match is a node of the document or the result of a function, nor what is above it.

Parents, sub-paths and scripts that mention the path are not local: they see the ancestors, the document and
the labels of the match.

`answer_extend` is the lemma behind it, about one branch.  It follows from the locality of operations
(`Trail/Locality`), by induction on the rest.
-/
import TreePath.Proofs.Program.Compiled
import TreePath.Proofs.Trail.Locality

namespace TreePath

/-- A step that looks neither at parents nor at the document nor at the path of the current value. -/
def Step.IsLocal : Step → Prop
  | .parent => False
  | .subPath _ => False
  | .script body => ∀ script, Script.compile body = .ok script → script.usesPath = false
  | .filter body => ∀ script, Script.compile body = .ok script → script.usesPath = false
  | _ => True

theorem Op.Compiles.isLocal {options : Options} {step : Step} {op : Op}
    (h : Op.Compiles options step op) (ne : step ≠ .root) (isLocal : step.IsLocal) :
    op.IsLocal := by
  cases h with
  | root => exact absurd rfl ne
  | parent => cases isLocal
  | subPath _ => cases isLocal
  | script compiled => exact isLocal _ compiled
  | filter compiled => exact isLocal _ compiled
  | _ => trivial

def Match.extend (start rest : Match) : Match :=
  match rest.labels with
  | .root :: labels => ⟨start.labels ++ labels, rest.value⟩
  | _ => rest

namespace Program

variable {document : Json} {context : Option Registry}

theorem records_eq_matchesBelow {source : String} {steps : List Step} {options : Options}
    {ops : List Op} (isLocal : ∀ op ∈ ops, op.IsLocal) :
    (assemble source steps options ops).records document context =
      (matchesBelow context (ops ++ [.emit]) document).map (List.map (Match.under [.root])) := by
  rw [records_assemble, answer_local isLocal (by simp)]
  rfl

theorem answer_extend {source : String} {steps : List Step} {options : Options} {ops : List Op}
    (isLocal : ∀ op ∈ ops, op.IsLocal) {h : History} (begun : h ≠ []) :
    answer document context (ops ++ [.emit]) h =
      ((assemble source steps options ops).records (h.value document) context).map
        (List.map (Match.mk h.labels (h.value document)).extend) := by
  rw [answer_local isLocal begun, records_eq_matchesBelow isLocal]
  cases matchesBelow context (ops ++ [.emit]) (h.value document) with
  | error _ => rfl
  | ok found =>
      refine congrArg Except.ok ?_
      rw [List.map_map]
      exact List.map_congr_left fun m _ => rfl

/-- Where the start of a path has matches, the path has those of its rest in each of them, in order,
or the first fault among them; where the start has a fault, the path has one. -/
theorem records_append {path rest : String} {options : Options} {outer inner : Program}
    (separator : rest.toList.head? = some '.' ∨ rest.toList.head? = some '[')
    (first : compile path options = .ok outer)
    (others : compile ("$" ++ rest) options = .ok inner)
    (isLocal : ∀ step ∈ inner.steps, step.IsLocal) (document : Json) (context : Option Registry) :
    ∃ whole, compile (path ++ rest) options = .ok whole ∧
      (∀ records, outer.records document context = .ok records →
        whole.records document context =
          (records.mapM fun m =>
            (inner.records m.value context).map (List.map m.extend)).map List.flatten) ∧
      ∀ fault, outer.records document context = .error fault →
        ∃ fault', whole.records document context = .error fault' := by
  obtain ⟨steps, added, ops, more, rfl, rfl, lowered, lowered', whole⟩ :=
    compile_append separator first others
  have plain : ∀ op ∈ ops, op ≠ .emit := Step.plain_of_lower lowered
  have more_local : ∀ op ∈ more, op.IsLocal := by
    intro op mem
    obtain ⟨step, step_mem, ne, compiles⟩ := Step.exists_of_mem_lower lowered' mem
    exact compiles.isLocal ne (isLocal step (List.mem_cons_of_mem _ step_mem))
  refine ⟨_, whole, ?_, ?_⟩
  · intro records found
    obtain ⟨hs, start, begun, rfl⟩ := reached_of_records plain found
    rw [records_assemble, List.append_assoc, answer_append plain start, List.mapM_map]
    exact History.runAll_congr fun h mem => answer_extend more_local (begun h mem)
  · intro fault found
    obtain ⟨_, start⟩ := reached_error_of_records plain found
    rw [records_assemble, List.append_assoc]
    exact answer_append_error plain start

/-- Descent from the items of an array, one of which has items at two depths. -/
theorem records_append_descent :
    let document := Json.arr [.arr [.arr [.null]], .bool true]
    let outer := assemble "$[*]" [.root, .wildcard] .default [.wildcard]
    let inner := assemble ("$" ++ "..[0]") [.root, .descent, .property (.index 0)] .default
      [.descent, .property (.index 0)]
    let zero := Label.key (.index 0)
    compile "$[*]" .default = .ok outer ∧ compile ("$" ++ "..[0]") .default = .ok inner ∧
      outer.records document none =
        .ok [⟨[.root, zero], .arr [.arr [.null]]⟩, ⟨[.root, .key (.index 1)], .bool true⟩] ∧
      ∃ whole, compile ("$[*]" ++ "..[0]") .default = .ok whole ∧
        whole.records document none =
          .ok [⟨[.root, zero, zero], .arr [.null]⟩, ⟨[.root, zero, zero, zero], .null⟩] := by
  intro document outer inner zero
  have first : compile "$[*]" .default = .ok outer :=
    compile_eq_ok_iff.mpr ⟨_, _, by rfl, by rfl, rfl⟩
  have others : compile ("$" ++ "..[0]") .default = .ok inner :=
    compile_eq_ok_iff.mpr ⟨_, _, by rfl, by rfl, rfl⟩
  have isLocal : ∀ step ∈ inner.steps, step.IsLocal := by
    intro step mem
    rcases List.mem_cons.mp mem with rfl | mem
    · trivial
    rcases List.mem_cons.mp mem with rfl | mem
    · trivial
    rw [List.mem_singleton.mp mem]
    trivial
  have found : outer.records document none =
      .ok [⟨[.root, zero], .arr [.arr [.null]]⟩, ⟨[.root, .key (.index 1)], .bool true⟩] := by
    rw [records_eq_recordsByHistory]
    rfl
  have below : inner.records (.arr [.arr [.null]]) none =
      .ok [⟨[.root, zero], .arr [.null]⟩, ⟨[.root, zero, zero], .null⟩] := by
    rw [records_eq_recordsByHistory]
    rfl
  have nothing : inner.records (.bool true) none = .ok [] := by
    rw [records_eq_recordsByHistory]
    rfl
  obtain ⟨whole, compiled, joined, -⟩ :=
    records_append (.inl rfl) first others isLocal document none
  refine ⟨first, others, found, whole, compiled, ?_⟩
  rw [joined _ found, List.mapM_cons, List.mapM_cons, below, nothing]
  rfl

end Program

end TreePath
