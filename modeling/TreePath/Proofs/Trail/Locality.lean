/-
# Locality — what an operation sees of a branch

Most operations see of a branch its current value alone (`Op.IsLocal`): their successors are those of the
value as a document of its own, on top of the branch (`Op.successors_local`).  So the end of a program that
has only such operations gives at each branch what it gives at the value of the branch, with the labels of
the branch in front (`answer_local`).

The other half is about the start of a program.  The branches that it reaches are reached in order, and the
rest of the program is run at each of them in turn:

* `answer` has the matches of a branch under some operations, and `reached` the branches that they lead to;
* `answer_append` and `reached_of_records` tie the two together;
* `reached_induction` is how a property of branches is proved of all that are reached, from one step.

The last section has the answers of single operations at the end of a path, for the modules that ask for
them.
-/
import TreePath.Program.Compile
import TreePath.Proofs.Trail.Successors

namespace TreePath

namespace History

variable {reference reference' : History → Except Fault (List Match)}

theorem runAll_congr {hs : List History} (h : ∀ branch ∈ hs, reference branch = reference' branch) :
    runAll reference hs = (hs.mapM reference').map List.flatten := by
  rw [runAll, mapM_congr h]
  cases hs.mapM reference' with
  | error _ => rfl
  | ok _ => rfl

theorem runAll_error_of_mem {hs : List History} {h : History} {fault : Fault} (mem : h ∈ hs)
    (failed : reference h = .error fault) : ∃ fault', runAll reference hs = .error fault' := by
  induction hs with
  | nil => cases mem
  | cons first hs ih =>
      rw [runAll_cons]
      rcases List.mem_cons.mp mem with rfl | mem
      · rw [failed]
        exact ⟨fault, rfl⟩
      · obtain ⟨fault', others⟩ := ih mem
        rw [others]
        cases reference first with
        | error fault => exact ⟨fault, rfl⟩
        | ok _ => exact ⟨fault', rfl⟩

theorem runAll_flatten {stands : History → Except Fault (List History)} {hs : List History}
    {parts : List (List History)} (found : hs.mapM stands = .ok parts)
    (each : ∀ h part, stands h = .ok part → reference h = runAll reference' part) :
    runAll reference hs = runAll reference' parts.flatten := by
  induction hs generalizing parts with
  | nil =>
      cases found
      rfl
  | cons h hs ih =>
      obtain ⟨part, others, first, rest, rfl⟩ := mapM_cons_eq_ok_iff.mp found
      rw [runAll_cons, List.flatten_cons, runAll_append, each h part first, ih rest]

end History

namespace Program

variable (document : Json) (context : Option Registry)

/-- The matches that a branch leads to under a sequence of operations. -/
def answer : List Op → History → Except Fault (List Match)
  | [] => fun _ => .ok []
  | op :: rest => op.expected document context (answer rest)

theorem runHistory_eq_answer (code : List Instruction) :
    runHistory document context code = answer document context (code.map Instruction.op) := by
  induction code with
  | nil => rfl
  | cons i rest ih =>
      obtain ⟨op, flags⟩ := i
      rw [runHistory_cons, ih]
      rfl

/-- A compiled path starts at the root and reports the branches that its operations lead to. -/
theorem records_assemble (source : String) (steps : List Step) (options : Options)
    (ops : List Op) :
    (assemble source steps options ops).records document context =
      answer document context (ops ++ [.emit]) [(.root, document)] := by
  rw [records_eq_recordsByHistory]
  show runHistory document context ((Op.start :: ops ++ [Op.emit]).map _) [] = _
  rw [runHistory_eq_answer, List.map_map]
  have same : (Op.start :: ops ++ [Op.emit]).map
      (Instruction.op ∘ instruction options (steps.any (· = .parent))) =
        .start :: (ops ++ [.emit]) := List.map_id _
  rw [same]
  exact History.runAll_singleton _ _

/-! ## The branches that operations reach -/

/-- The branches that operations lead to, in order. -/
def reached : List Op → History → Except Fault (List History)
  | [] => fun h => .ok [h]
  | op :: rest => fun h => do
    let successors ← op.successors document context h
    return (← successors.mapM (reached rest)).flatten

variable {document context}

theorem expected_of_ne_emit {op : Op} (h : op ≠ .emit)
    (reference : History → Except Fault (List Match)) (branch : History) :
    op.expected document context reference branch =
      op.successors document context branch >>= History.runAll reference := by
  cases op <;> first | rfl | exact absurd rfl h

theorem reached_cons_eq_ok_iff {op : Op} {rest : List Op} {h : History} {hs : List History} :
    reached document context (op :: rest) h = .ok hs ↔
      ∃ successors parts, op.successors document context h = .ok successors ∧
        successors.mapM (reached document context rest) = .ok parts ∧ hs = parts.flatten := by
  constructor
  · intro found
    obtain ⟨successors, first, found⟩ := bind_eq_ok_iff.mp found
    obtain ⟨parts, others, found⟩ := bind_eq_ok_iff.mp found
    cases found
    exact ⟨successors, parts, first, others, rfl⟩
  · rintro ⟨successors, parts, first, others, rfl⟩
    exact bind_eq_ok_iff.mpr ⟨successors, first, bind_eq_ok_iff.mpr ⟨parts, others, rfl⟩⟩

/-- What holds of a branch and is kept by every successor holds of all branches that are reached. -/
theorem reached_induction {P : History → Prop} {ops : List Op}
    (step : ∀ op ∈ ops, ∀ h h', P h → op.Successor document context h h' → P h')
    {h : History} (start : P h) {hs : List History}
    (found : reached document context ops h = .ok hs) : ∀ h' ∈ hs, P h' := by
  induction ops generalizing h hs with
  | nil =>
      cases found
      intro h' mem
      rw [List.mem_singleton.mp mem]
      exact start
  | cons op rest ih =>
      obtain ⟨successors, parts, first, others, rfl⟩ := reached_cons_eq_ok_iff.mp found
      intro h' mem
      obtain ⟨part, part_mem, mem⟩ := List.mem_flatten.mp mem
      obtain ⟨s, s_mem, found⟩ := exists_of_mem_mapM others part_mem
      have next := step op List.mem_cons_self h s start (Op.successor_of_mem first s_mem)
      exact ih (fun op mem => step op (List.mem_cons_of_mem _ mem)) next found h' mem

/-- The rest of a program is run at the branches that its start reaches, in their order. -/
theorem answer_append {ops tail : List Op} (plain : ∀ op ∈ ops, op ≠ .emit) {h : History}
    {hs : List History} (found : reached document context ops h = .ok hs) :
    answer document context (ops ++ tail) h =
      History.runAll (answer document context tail) hs := by
  induction ops generalizing h hs with
  | nil =>
      cases found
      exact (History.runAll_singleton _ h).symm
  | cons op rest ih =>
      obtain ⟨successors, parts, first, others, rfl⟩ := reached_cons_eq_ok_iff.mp found
      rw [List.cons_append, answer, expected_of_ne_emit (plain op List.mem_cons_self), first]
      exact History.runAll_flatten others fun _ _ =>
        ih fun op mem => plain op (List.mem_cons_of_mem _ mem)

theorem answer_append_error {ops tail : List Op} (plain : ∀ op ∈ ops, op ≠ .emit) {h : History}
    {fault : Fault} (found : reached document context ops h = .error fault) :
    ∃ fault', answer document context (ops ++ tail) h = .error fault' := by
  induction ops generalizing h fault with
  | nil => cases found
  | cons op rest ih =>
      rw [List.cons_append, answer, expected_of_ne_emit (plain op List.mem_cons_self)]
      cases first : op.successors document context h with
      | error fault' => exact ⟨fault', rfl⟩
      | ok successors =>
          cases others : successors.mapM (reached document context rest) with
          | ok parts =>
              have reached := reached_cons_eq_ok_iff.mpr ⟨successors, parts, first, others, rfl⟩
              rw [found] at reached
              cases reached
          | error fault' =>
              obtain ⟨s, mem, failed⟩ := exists_error_of_mapM others
              obtain ⟨_, failed⟩ :=
                ih (fun op mem => plain op (List.mem_cons_of_mem _ mem)) failed
              exact History.runAll_error_of_mem mem failed

theorem answer_emit {h : History} (begun : h ≠ []) :
    answer document context [.emit] h = .ok [⟨h.labels, h.value document⟩] := by
  show Except.ok (if h.isEmpty then [] else [Match.mk h.labels (h.value document)]) = _
  rw [List.isEmpty_eq_false_iff.mpr begun]
  rfl

theorem runAll_emit {hs : List History} (begun : ∀ h ∈ hs, h ≠ []) :
    History.runAll (answer document context [.emit]) hs =
      .ok (hs.map fun h => ⟨h.labels, h.value document⟩) := by
  induction hs with
  | nil => rfl
  | cons h rest ih =>
      rw [History.runAll_cons, ih fun h mem => begun h (List.mem_cons_of_mem _ mem),
        answer_emit (begun h List.mem_cons_self)]
      rfl

section records

variable {source : String} {steps : List Step} {options : Options} {ops : List Op}
  (plain : ∀ op ∈ ops, op ≠ .emit)

include plain

theorem records_of_reached {hs : List History}
    (found : reached document context ops [(.root, document)] = .ok hs) :
    (∀ h ∈ hs, h ≠ []) ∧ (assemble source steps options ops).records document context =
      .ok (hs.map fun h => ⟨h.labels, h.value document⟩) := by
  have begun : ∀ h ∈ hs, h ≠ [] :=
    reached_induction (fun _ _ _ _ start step => step.ne_nil start) (by simp) found
  refine ⟨begun, ?_⟩
  rw [records_assemble, answer_append plain found, runAll_emit begun]

theorem reached_of_records {records : List Match}
    (h : (assemble source steps options ops).records document context = .ok records) :
    ∃ hs, reached document context ops [(.root, document)] = .ok hs ∧ (∀ h ∈ hs, h ≠ []) ∧
      records = hs.map fun h => ⟨h.labels, h.value document⟩ := by
  cases found : reached document context ops [(.root, document)] with
  | error _ =>
      have failed : ∃ fault', answer document context (ops ++ [.emit]) _ = .error fault' :=
        answer_append_error plain found
      rw [← records_assemble document context source steps options, h] at failed
      obtain ⟨_, ⟨⟩⟩ := failed
  | ok hs =>
      obtain ⟨begun, records⟩ := records_of_reached plain found
      rw [h] at records
      cases records
      exact ⟨hs, rfl, begun, rfl⟩

theorem reached_error_of_records {fault : Fault}
    (h : (assemble source steps options ops).records document context = .error fault) :
    ∃ fault', reached document context ops [(.root, document)] = .error fault' := by
  cases found : reached document context ops [(.root, document)] with
  | error fault' => exact ⟨fault', rfl⟩
  | ok hs =>
      obtain ⟨_, records⟩ := records_of_reached plain found
      rw [h] at records
      cases records

end records

end Program

/-! ## Operations that see the current value alone -/

/-- An operation that looks neither at what is above the current value nor at the document. -/
def Op.IsLocal : Op → Prop
  | .start => False
  | .parent => False
  | .subPath _ => False
  | .emit => False
  | .script s => s.usesPath = false
  | .filter s => s.usesPath = false
  | _ => True

namespace History

variable {document : Json}

theorem value_append (g h : History) : (g ++ h).value document = g.value (h.value document) := by
  cases g <;> rfl

theorem labels_cons (label : Label) (value : Json) (h : History) :
    History.labels ((label, value) :: h) = h.labels ++ [label] :=
  List.reverse_cons

theorem labels_append (g h : History) : (g ++ h).labels = h.labels ++ g.labels := by
  rw [labels, List.map_append, List.reverse_append]
  rfl

theorem select_append (h : History) (owner : Json) (keys : List Key) :
    h.select owner keys = (History.select [] owner keys).map (· ++ h) := by
  rw [select, select, List.map_filterMap]
  refine congrArg (List.filterMap · keys) (funext ?_)
  intro key
  rw [Option.map_map]
  rfl

theorem children_append (h : History) (owner : Json) :
    h.children owner = (History.children [] owner).map (· ++ h) := by
  rw [children, children, List.map_map]
  rfl

mutual

theorem containers_append (g h : History) :
    ∀ (value : Json), containers (g ++ h) value = (containers g value).map (· ++ h)
  | .arr items => by
      rw [containers, containers, containersOfItems_append g h 0 items]
      rfl
  | .obj members => by
      rw [containers, containers, containersOfMembers_append g h members]
      rfl
  | .null => rfl
  | .bool _ => rfl
  | .num _ => rfl
  | .str _ => rfl

theorem containersOfItems_append (g h : History) (position : Nat) :
    ∀ (items : List Json), containersOfItems (g ++ h) position items =
      (containersOfItems g position items).map (· ++ h)
  | [] => rfl
  | item :: rest => by
      rw [containersOfItems, containersOfItems, List.map_append,
        containersOfItems_append g h (position + 1) rest, ← List.cons_append,
        containers_append _ h item]
      split <;> rfl

theorem containersOfMembers_append (g h : History) :
    ∀ (members : List (String × Json)), containersOfMembers (g ++ h) members =
      (containersOfMembers g members).map (· ++ h)
  | [] => rfl
  | (name, value) :: rest => by
      rw [containersOfMembers, containersOfMembers, List.map_append,
        containersOfMembers_append g h rest, ← List.cons_append, containers_append _ h value]
      split <;> rfl

end

theorem survivors_append {script : Script} (blind : script.usesPath = false) (h : History) :
    ∀ (candidates : List History),
      History.survivors script document (candidates.map (· ++ h)) =
        (History.survivors script (h.value document) candidates).map (List.map (· ++ h)) := by
  intro candidates
  induction candidates with
  | nil => rfl
  | cons g rest ih =>
      rw [List.map_cons, survivors, survivors, value_append, blind, ih,
        if_neg Bool.false_ne_true, if_neg Bool.false_ne_true]
      cases script.test (g.value (h.value document)) none with
      | error _ => rfl
      | ok holds =>
          cases survivors script (h.value document) rest with
          | error _ => rfl
          | ok others => cases holds <;> rfl

end History

open Trace

variable {document : Json} {context : Option Registry}

/-- A local operation has the successors of the current value alone, on top of the branch. -/
theorem Op.successors_local {op : Op} (isLocal : op.IsLocal) (h : History) :
    op.successors document context h =
      (op.successors (h.value document) context []).map (List.map (· ++ h)) := by
  cases op with
  | start => cases isLocal
  | parent => cases isLocal
  | subPath _ => cases isLocal
  | emit => cases isLocal
  | property key => exact congrArg Except.ok (h.select_append _ [key])
  | wildcard => exact congrArg Except.ok (h.children_append _)
  | descent => exact congrArg Except.ok (History.containers_append [] h _)
  | properties keys => exact congrArg Except.ok (h.select_append _ keys)
  | slice slice => exact congrArg Except.ok (h.select_append _ _)
  | script script =>
      have blind : script.usesPath = false := isLocal
      simp only [Op.successors, blind, if_neg Bool.false_ne_true]
      show (script.key (h.value document) none >>= _) =
        Except.map _ (script.key (h.value document) none >>= _)
      cases script.key (h.value document) none with
      | error _ => rfl
      | ok key => exact congrArg Except.ok (h.select_append _ [key])
  | filter script =>
      show History.survivors script document (h.children _) =
        (History.survivors script _ (History.children [] _)).map _
      rw [h.children_append]
      exact History.survivors_append isLocal h _
  | function name bound =>
      show (resolve context name bound >>= fun f => f.apply (h.value document) >>= _) =
        Except.map _ (resolve context name bound >>= fun f => f.apply (h.value document) >>= _)
      cases resolve context name bound with
      | error _ => rfl
      | ok f =>
          show (f.apply (h.value document) >>= _) = Except.map _ (f.apply (h.value document) >>= _)
          cases f.apply (h.value document) with
          | error _ => rfl
          | ok _ => rfl

def Match.under (labels : List Label) (m : Match) : Match :=
  ⟨labels ++ m.labels, m.value⟩

theorem Match.under_under (outer inner : List Label) (m : Match) :
    Match.under outer (Match.under inner m) = Match.under (outer ++ inner) m := by
  rw [under, under, under, List.append_assoc]

theorem History.runAll_map {reference reference' : History → Except Fault (List Match)}
    (place : History → History) (relabel : Match → Match) (hs : List History)
    (each : ∀ h ∈ hs, reference (place h) = (reference' h).map (List.map relabel)) :
    runAll reference (hs.map place) = (runAll reference' hs).map (List.map relabel) := by
  induction hs with
  | nil => rfl
  | cons h hs ih =>
      rw [List.map_cons, runAll_cons, runAll_cons, each h List.mem_cons_self,
        ih fun h mem => each h (List.mem_cons_of_mem _ mem)]
      cases reference' h with
      | error _ => rfl
      | ok first =>
          cases runAll reference' hs with
          | error _ => rfl
          | ok others => exact congrArg Except.ok List.map_append.symm

namespace Program

/-- The matches below a value, with the labels below it. -/
def matchesBelow (context : Option Registry) : List Op → Json → Except Fault (List Match)
  | [] => fun _ => .ok []
  | .emit :: _ => fun value => .ok [⟨[], value⟩]
  | op :: rest => fun value =>
    op.successors value context [] >>= History.runAll fun g =>
      (matchesBelow context rest (g.value value)).map (List.map (Match.under g.labels))

theorem answer_local {ops : List Op} (isLocal : ∀ op ∈ ops, op.IsLocal) {h : History}
    (start : h ≠ []) :
    answer document context (ops ++ [.emit]) h =
      (matchesBelow context (ops ++ [.emit]) (h.value document)).map
        (List.map (Match.under h.labels)) := by
  induction ops generalizing h with
  | nil =>
      show Except.ok (if h.isEmpty then [] else [Match.mk h.labels (h.value document)]) =
        Except.ok _
      rw [List.isEmpty_eq_false_iff.mpr start]
      show Except.ok [Match.mk h.labels _] = Except.ok [Match.mk (h.labels ++ []) _]
      rw [List.append_nil]
  | cons op rest ih =>
      have op_local := isLocal op List.mem_cons_self
      have plain : op ≠ .emit := by
        rintro rfl
        exact op_local
      have unfolded : matchesBelow context (op :: (rest ++ [.emit])) (h.value document) =
          (op.successors (h.value document) context [] >>= History.runAll fun g =>
            (matchesBelow context (rest ++ [.emit]) (g.value (h.value document))).map
              (List.map (Match.under g.labels))) := by
        cases op <;> first | rfl | exact absurd rfl plain
      rw [List.cons_append, answer, expected_of_ne_emit plain, Op.successors_local op_local,
        unfolded]
      cases op.successors (h.value document) context [] with
      | error _ => rfl
      | ok pieces =>
          refine History.runAll_map (· ++ h) (Match.under h.labels) pieces ?_
          intro g _
          have found := ih (fun op mem => isLocal op (List.mem_cons_of_mem _ mem))
            (h := g ++ h) (by simp [start])
          rw [found, History.value_append, History.labels_append]
          cases matchesBelow context (rest ++ [.emit]) (g.value (h.value document)) with
          | error _ => rfl
          | ok records =>
              refine congrArg Except.ok ?_
              rw [List.map_map]
              exact List.map_congr_left fun m _ => (Match.under_under _ _ m).symm

end Program

/-! ## The last operation of a path -/

namespace History

def toMatch (document : Json) (h : History) : Match :=
  ⟨h.labels, h.value document⟩

theorem path_toMatch (document : Json) (h : History) : (h.toMatch document).path = h.path [] := by
  rw [path, List.append_nil]
  rfl

theorem runAll_flatMap {reference : History → Except Fault (List Match)}
    {own : History → List Match} {hs : List History}
    (each : ∀ h ∈ hs, reference h = .ok (own h)) :
    runAll reference hs = .ok (hs.flatMap own) := by
  induction hs with
  | nil => rfl
  | cons h hs ih =>
      rw [runAll_cons, List.flatMap_cons, each h List.mem_cons_self,
        ih fun h mem => each h (List.mem_cons_of_mem _ mem)]
      rfl

end History

namespace Program

/-- The matches of a path with one more operation, if the path without it runs to its end. -/
theorem records_concat {source : String} {steps : List Step} {options : Options} {ops : List Op}
    (plain : ∀ op ∈ ops, op ≠ .emit) {hs : List History}
    (found : reached document context ops [(.root, document)] = .ok hs) (op : Op) :
    (assemble source steps options (ops ++ [op])).records document context =
      History.runAll (answer document context [op, .emit]) hs := by
  rw [records_assemble, List.append_assoc, answer_append plain found]
  rfl

theorem answer_wildcard (h : History) :
    answer document context [.wildcard, .emit] h =
      .ok ((h.children (h.value document)).map (History.toMatch document)) := by
  refine runAll_emit ?_
  intro h' mem
  obtain ⟨_, _, rfl⟩ := List.mem_map.mp mem
  exact List.cons_ne_nil _ _

theorem answer_property {key : Key} {h : History} {child : Json} (rest : List Op)
    (found : key.child? (h.value document) = some child) :
    answer document context (.property key :: rest) h =
      answer document context rest ((.key key, child) :: h) := by
  show History.runAll _ (h.select (h.value document) [key]) = _
  rw [History.select, List.filterMap_cons, found]
  exact History.runAll_singleton _ _

theorem answer_property_emit (key : Key) (h : History) :
    answer document context [.property key, .emit] h =
      .ok ((key.child? (h.value document)).map fun child =>
        ⟨h.labels ++ [.key key], child⟩).toList := by
  cases found : key.child? (h.value document) with
  | none =>
      show History.runAll _ (h.select (h.value document) [key]) = _
      rw [History.select, List.filterMap_cons, found]
      rfl
  | some child =>
      rw [answer_property _ found, ← History.labels_cons (.key key) child]
      rfl

theorem answer_call {name : String} {bound : Option Func} {f : Func}
    (resolved : resolve context name bound = .ok f) (rest : List Op) (h : History) :
    answer document context (.function name bound :: rest) h =
      f.apply (h.value document) >>= fun value =>
        answer document context rest ((.call (name ++ "()"), value) :: h) := by
  have successors : Op.successors document context (.function name bound) h =
      f.apply (h.value document) >>= fun value => .ok [(.call (name ++ "()"), value) :: h] := by
    show (resolve context name bound >>= _) = _
    rw [resolved]
    rfl
  rw [answer, expected_of_ne_emit (by simp), successors]
  cases f.apply (h.value document) with
  | error _ => rfl
  | ok value => exact History.runAll_singleton _ _

end Program

end TreePath
