/-
# Reordering — the order of members only permutes the matches

Branches of two runs, in documents that differ in the order of members, correspond if they have the same
labels and twins for values (`History.Twin`).  Each operation leads corresponding branches to branches that
correspond up to their order, or fails at both (`Op.successors_twin`).  So does a program, whatever order its
branches are tried in (`reached_twin`).

`records_reordered` is the result for compiled paths: matches in both documents or in neither, and then the
same paths, each with a value that differs at most in the order of members.

Which fault is met first can depend on the order, so nothing is said of that.  Sub-paths give the same keys in
another order; they are shorter than their path, which the induction is on.

Functions see the order of members, so a path that calls one is not covered (`CallsNothing`).
-/
import TreePath.Proofs.Program.Compiled
import TreePath.Proofs.Script.Reordering
import TreePath.Proofs.Trail.Locality
import TreePath.Proofs.Trail.Standing

namespace TreePath

variable {document document' : Json} {context : Option Registry}

/-! ## Branches -/

/-- Branches with the same labels and twins for values. -/
def History.Twin (h h' : History) : Prop :=
  List.Forall₂ (Json.SameKey Json.Twin) h h'

structure Match.Twin (m m' : Match) : Prop where
  labels : m.labels = m'.labels
  value : m.value.Twin m'.value

namespace History

variable {h h' : History}

theorem Twin.labels (twin : h.Twin h') : h.labels = h'.labels := by
  have names : h.map Prod.fst = h'.map Prod.fst := by
    rw [← List.forall₂_eq_eq_eq]
    exact List.rel_map (fun _ _ entry => entry.1) twin
  rw [History.labels, History.labels, names]

theorem Twin.path (twin : h.Twin h') (further : List Label) : h.path further = h'.path further := by
  rw [History.path, History.path, twin.labels]

theorem Twin.value (documents : document.Twin document') (twin : h.Twin h') :
    (h.value document).Twin (h'.value document') := by
  cases twin with
  | nil => exact documents
  | cons newest _ => exact newest.2

theorem Twin.cons (label : Label) {value value' : Json} (values : value.Twin value')
    (twin : h.Twin h') : History.Twin ((label, value) :: h) ((label, value') :: h') :=
  List.Forall₂.cons ⟨rfl, values⟩ twin

theorem Twin.select (twin : h.Twin h') {owner owner' : Json} (owners : owner.Twin owner')
    {keys keys' : List Key} (same : Permuted Eq keys keys') :
    Permuted Twin (h.select owner keys) (h'.select owner' keys') := by
  refine same.filterMap ?_
  rintro key _ rfl
  have found := owners.child? key
  generalize key.child? owner = child, key.child? owner' = child' at found
  cases found with
  | none => exact .none
  | some values => exact .some (twin.cons _ values)

theorem Twin.children (twin : h.Twin h') {owner owner' : Json} (owners : owner.Twin owner') :
    Permuted Twin (h.children owner) (h'.children owner') := by
  refine owners.children.map ?_
  rintro ⟨key, child⟩ ⟨_, child'⟩ ⟨rfl, values⟩
  exact twin.cons _ values

theorem Twin.containers (twin : h.Twin h') {owner owner' : Json} (owners : owner.Twin owner') :
    Permuted Twin (h.containers owner) (h'.containers owner') := by
  induction size : sizeOf owner using Nat.strongRecOn generalizing h h' owner owner' with
  | _ size ih =>
      subst size
      rw [containers_eq, containers_eq]
      -- the induction is on the size of the value, so that the children are known to be listed in it
      have listed : Permuted
          (fun child child' => child ∈ owner.children ∧ Json.SameKey Json.Twin child child')
          owner.children owner'.children :=
        owners.children.imp_of_mem fun _ mem _ _ entry => ⟨mem, entry⟩
      refine .cons twin (listed.flatMap ?_)
      rintro ⟨key, child⟩ ⟨_, child'⟩ ⟨mem, rfl, values⟩
      rw [containersIn, containersIn, values.reordered.isContainer]
      split
      · exact ih _ (sizeOf_child_lt mem) (twin.cons _ values) values rfl
      · exact .nil

def passing (script : Script) (document : Json) (h : History) : Except Fault (List History) := do
  let path := if script.usesPath then some (h.path []) else none
  return if ← script.test (h.value document) path then [h] else []

theorem survivors_eq_mapM (script : Script) (document : Json) (candidates : List History) :
    survivors script document candidates =
      (candidates.mapM (passing script document)).map List.flatten := by
  induction candidates with
  | nil => rfl
  | cons h rest ih =>
      rw [survivors, List.mapM_cons, ih, passing]
      cases script.test (h.value document) (if script.usesPath then some (h.path []) else none) with
      | error _ => rfl
      | ok holds =>
          cases rest.mapM (passing script document) with
          | error _ => cases holds <;> rfl
          | ok _ => cases holds <;> rfl

theorem Twin.passing (documents : document.Twin document') (script : Script)
    (twin : h.Twin h') : Together (Permuted Twin) (passing script document h)
      (passing script document' h') := by
  rw [History.passing, History.passing, twin.path]
  refine (script.test_twin (twin.value documents) _).bind ?_
  rintro holds _ rfl
  cases holds with
  | true => exact .ok (.singleton twin)
  | false => exact .ok .nil

theorem survivors_twin (documents : document.Twin document') (script : Script)
    {candidates candidates' : List History} (same : Permuted Twin candidates candidates') :
    Together (Permuted Twin) (survivors script document candidates)
      (survivors script document' candidates') := by
  rw [survivors_eq_mapM, survivors_eq_mapM]
  have each : ∀ h h', Twin h h' → Together (Permuted Twin) (passing script document h)
      (passing script document' h') :=
    fun _ _ => Twin.passing documents script
  exact (Together.mapM each same).map fun _ _ => Permuted.flatten

end History

/-! ## Operations -/

open Trace

theorem Key.ofScalar?_eq {value value' : Json} (h : value.Reordered value') :
    ofScalar? value = ofScalar? value' := by
  cases h <;> rfl

theorem Key.filterMap_ofScalar?_eq {items items' : List Json}
    (h : List.Forall₂ Json.Reordered items items') :
    items.filterMap ofScalar? = items'.filterMap ofScalar? := by
  induction h with
  | nil => rfl
  | cons first _ ih => rw [List.filterMap_cons, List.filterMap_cons, ofScalar?_eq first, ih]

theorem keysOf_permuted {records records' : List Match} (same : Permuted Match.Twin records records') :
    Permuted Eq (keysOf records) (keysOf records') := by
  refine same.flatMap ?_
  rintro ⟨_, value⟩ ⟨_, value'⟩ ⟨_, values⟩
  refine .of_eq ?_
  dsimp only at values ⊢
  cases values.reordered with
  | arr items => exact Key.filterMap_ofScalar?_eq items
  | scalar scalar =>
      cases value with
      | arr _ | obj _ => cases scalar
      | null | bool _ | num _ | str _ => rfl
  | obj _ _ _ => rfl

theorem sliceKeys_eq (slice : Slice) {owner owner' : Json} (h : owner.Reordered owner') :
    sliceKeys slice owner = sliceKeys slice owner' := by
  cases h with
  | scalar _ | obj _ _ _ => rfl
  | arr items => rw [sliceKeys, sliceKeys, items.length_eq]

theorem Op.successors_twin (op : Op) (documents : document.Twin document')
    (noCall : ∀ name bound, op ≠ .function name bound)
    (nested : ∀ inner, op = .subPath inner → Together (Permuted Match.Twin)
      (inner.recordsByHistory document context) (inner.recordsByHistory document' context))
    {h h' : History} (twin : h.Twin h') :
    Together (Permuted History.Twin) (op.successors document context h)
      (op.successors document' context h') := by
  have owners := twin.value documents
  cases op with
  | start => exact .ok (.singleton (List.Forall₂.cons ⟨rfl, documents⟩ .nil))
  | emit => exact .ok .nil
  | property key => exact .ok (twin.select owners (.of_eq rfl))
  | wildcard => exact .ok (twin.children owners)
  | descent => exact .ok (twin.containers owners)
  | parent =>
      cases twin with
      | nil => exact .ok .nil
      | cons _ above =>
          cases above with
          | nil => exact .ok .nil
          | cons next rest => exact .ok (.singleton (List.Forall₂.cons next rest))
  | properties keys => exact .ok (twin.select owners (.of_eq rfl))
  | slice s => exact .ok (twin.select owners (.of_eq (sliceKeys_eq s owners.reordered)))
  | script script =>
      simp only [Op.successors, twin.path]
      refine (script.key_twin owners _).bind ?_
      rintro key _ rfl
      exact .ok (twin.select owners (.of_eq rfl))
  | filter script => exact History.survivors_twin documents script (twin.children owners)
  | function name bound => exact absurd rfl (noCall name bound)
  | subPath inner =>
      exact (nested inner rfl).bind fun _ _ records => .ok (twin.select owners (keysOf_permuted records))

/-! ## Programs -/

namespace Program

theorem reached_twin (documents : document.Twin document') {ops : List Op}
    (noCall : ∀ name bound, .function name bound ∉ ops)
    (nested : ∀ inner, .subPath inner ∈ ops → Together (Permuted Match.Twin)
      (inner.recordsByHistory document context) (inner.recordsByHistory document' context))
    {h h' : History} (twin : h.Twin h') :
    Together (Permuted History.Twin) (reached document context ops h)
      (reached document' context ops h') := by
  induction ops generalizing h h' with
  | nil => exact .ok (.singleton twin)
  | cons op rest ih =>
      have first := Op.successors_twin op documents
        (by rintro name bound rfl; exact noCall name bound List.mem_cons_self)
        (by rintro inner rfl; exact nested inner List.mem_cons_self) twin
      have others : ∀ h h' : History, h.Twin h' → Together (Permuted History.Twin)
          (reached document context rest h) (reached document' context rest h') := by
        intro h h' twin
        exact ih (fun name bound mem => noCall name bound (List.mem_cons_of_mem _ mem))
          (fun inner mem => nested inner (List.mem_cons_of_mem _ mem)) twin
      exact first.bind fun _ _ successors =>
        (Together.mapM others successors).bind fun _ _ parts => .ok parts.flatten

/-- No function is called by the program, nor by the programs of its sub-paths at any depth. -/
def CallsNothing (program : Program) : Prop :=
  ∀ inner, program.Runs inner → ∀ name, .function name ∉ inner.steps

theorem Runs.trans {program outer inner : Program} (runs : program.Runs outer)
    (runs' : outer.Runs inner) : program.Runs inner := by
  induction runs' with
  | self => exact runs
  | subPath _ mem isSubPath ih => exact .subPath ih mem isSubPath

theorem runs_of_mem {source : String} {steps : List Step} {options : Options} {ops : List Op}
    {nested : Program} (mem : .subPath nested ∈ ops) :
    (assemble source steps options ops).Runs nested := by
  refine .subPath .self (List.mem_map.mpr ⟨.subPath nested, ?_, rfl⟩) rfl
  exact List.mem_append_left _ (List.mem_cons_of_mem _ mem)

theorem callsNothing_assemble (source : String) (options : Options) {steps : List Step}
    {ops : List Op} (noSubPath : ∀ nested, .subPath nested ∉ ops)
    (noFunction : ∀ name, .function name ∉ steps) :
    (assemble source steps options ops).CallsNothing := by
  intro inner runs
  exact runs.eq_of_noSubPath noSubPath ▸ noFunction

theorem records_error_of_reached (source : String) (steps : List Step) (options : Options)
    {ops : List Op} (plain : ∀ op ∈ ops, op ≠ .emit) {fault : Fault}
    (found : reached document context ops [(.root, document)] = .error fault) :
    ∃ fault', (assemble source steps options ops).records document context = .error fault' := by
  rw [records_assemble]
  exact answer_append_error plain found

/-- The matches of a path in twins correspond up to their order, or both runs fail.  Sub-paths are
shorter, which the induction is on. -/
theorem records_twin (context : Option Registry) (documents : document.Twin document')
    {expression : String} {options : Options} {program : Program}
    (compiled : compile expression options = .ok program)
    (noCall : program.CallsNothing) :
    Together (Permuted Match.Twin) (program.records document context)
      (program.records document' context) := by
  induction size : expression.toList.length using Nat.strongRecOn
    generalizing expression options program with
  | _ size ih =>
      subst size
      obtain ⟨steps, ops, parsed, lowered, rfl⟩ := compile_eq_ok_iff.mp compiled
      have plain := Step.plain_of_lower lowered
      have twins : Together (Permuted History.Twin)
          (reached document context ops [(.root, document)])
          (reached document' context ops [(.root, document')]) := by
        refine reached_twin documents ?_ ?_ (List.Forall₂.cons ⟨rfl, documents⟩ .nil)
        · intro name bound mem
          obtain ⟨step, step_mem, _, compiles⟩ := Step.exists_of_mem_lower lowered mem
          cases compiles with
          | function => exact noCall _ .self name step_mem
        · intro inner mem
          obtain ⟨step, step_mem, _, compiles⟩ := Step.exists_of_mem_lower lowered mem
          cases compiles with
          | subPath compiled =>
              rw [← records_eq_recordsByHistory, ← records_eq_recordsByHistory]
              exact ih _ (Step.length_subPath_lt parsed step_mem) compiled
                (fun inner runs => noCall inner ((runs_of_mem mem).trans runs)) rfl
      generalize found : reached document context ops _ = result,
        found' : reached document' context ops _ = result' at twins
      cases twins with
      | ok branches =>
          rw [(records_of_reached plain found).2, (records_of_reached plain found').2]
          exact .ok (branches.map fun _ _ twin => ⟨twin.labels, twin.value documents⟩)
      | error =>
          obtain ⟨_, failed⟩ := records_error_of_reached expression steps options plain found
          obtain ⟨_, failed'⟩ := records_error_of_reached expression steps options plain found'
          rw [failed, failed']
          exact .error

/-- A compiled path that calls no function has matches in a document exactly if it has some in a document
with the same members in another order, and then they are the same up to their order: the same paths, and
values with the same members. -/
theorem records_reordered {expression : String} {options : Options} {program : Program}
    (compiled : compile expression options = .ok program) (noCall : program.CallsNothing)
    (context : Option Registry) (proper : document.Proper) (proper' : document'.Proper)
    (reordered : document.Reordered document') :
    ((∃ records, program.records document context = .ok records) ↔
      ∃ records', program.records document' context = .ok records') ∧
    ∀ records records', program.records document context = .ok records →
      program.records document' context = .ok records' →
      ∃ between : List Match, records.Perm between ∧
        List.Forall₂ (fun m m' => m.path = m'.path ∧ m.value.Reordered m'.value) between records' := by
  have twins := records_twin context ⟨reordered, proper, proper'⟩ compiled noCall
  generalize program.records document context = result,
    program.records document' context = result' at twins
  cases twins with
  | error => exact ⟨⟨nofun, nofun⟩, nofun⟩
  | ok both =>
      refine ⟨⟨fun _ => ⟨_, rfl⟩, fun _ => ⟨_, rfl⟩⟩, ?_⟩
      rintro _ _ ⟨⟩ ⟨⟩
      obtain ⟨between, perm, items⟩ := both
      refine ⟨between, perm, items.imp ?_⟩
      intro m m' twin
      exact ⟨congrArg Label.render twin.labels, twin.value.reordered⟩

/-- All members, in two orders. -/
theorem records_reordered_wildcard :
    let document := Json.obj [("a", .null), ("b", .arr [])]
    let document' := Json.obj [("b", .arr []), ("a", .null)]
    let a : Match := ⟨[.root, .key (.name "a")], .null⟩
    let b : Match := ⟨[.root, .key (.name "b")], .arr []⟩
    document.Reordered document' ∧ ∃ program, compile "$.*" .default = .ok program ∧
      program.records document none = .ok [a, b] ∧ program.records document' none = .ok [b, a] ∧
      ∃ between, [a, b].Perm between ∧
        List.Forall₂ (fun m m' => m.path = m'.path ∧ m.value.Reordered m'.value) between [b, a] := by
  intro document document' a b
  let program := assemble "$.*" [.root, .wildcard] .default [.wildcard]
  have compiled : compile "$.*" .default = .ok program :=
    compile_eq_ok_iff.mpr ⟨_, _, by rfl, by rfl, rfl⟩
  have noCall : program.CallsNothing :=
    callsNothing_assemble "$.*" .default (by intro nested mem; simp at mem)
      (by intro name mem; simp at mem)
  have proper : document.Proper := by
    exact ⟨by decide, trivial, ⟨by decide, trivial⟩, trivial⟩
  have proper' : document'.Proper := by
    exact ⟨by decide, ⟨by decide, trivial⟩, trivial, trivial⟩
  have reordered : document.Reordered document' :=
    .obj (.swap _ _ _) rfl (.cons (.arr .nil) (.cons (.scalar rfl) .nil))
  have records : program.records document none = .ok [a, b] := by
    rw [records_eq_recordsByHistory]
    rfl
  have records' : program.records document' none = .ok [b, a] := by
    rw [records_eq_recordsByHistory]
    rfl
  exact ⟨reordered, program, compiled, records, records',
    (records_reordered compiled noCall none proper proper' reordered).2 _ _ records records'⟩

end Program

end TreePath
