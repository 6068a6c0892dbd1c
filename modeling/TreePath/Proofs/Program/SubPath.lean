/-
# SubPath — a sub-path is the list of the keys that it finds in the document

The program of a sub-path runs in the document, wherever the branch is that comes to it, with the functions
and the context of the path around it.  So its keys are the same each time, and the path has the matches and
the fault that it has with the list of these keys in the place of the sub-path.  A fault of the sub-path is
that of the path if a branch comes to it, and does not show otherwise.

`records_subPath` is the statement.  The list may be empty, which no path can be written with, and the steps
before a sub-path need not be a path that can be read.  So it is about sequences of steps: `ofSteps` is the
program of a sequence, and a path is a sequence that was read (`compile_eq_ofSteps`).

At a branch the comparison is an equation of answers (`answer_subPath`), and what follows the sub-path
matters only by what it finds (`answer_append_congr`).
-/
import TreePath.Proofs.Path.Produced
import TreePath.Proofs.Program.Compiled
import TreePath.Proofs.Trail.Locality

namespace TreePath

/-! ## Programs of sequences of steps -/

namespace Step

/-- The steps of a sequence after the root, if it begins with one. -/
def afterRoot : List Step → List Step
  | .root :: rest => rest
  | steps => steps

theorem afterRoot_append {step : Step} (ne : step ≠ .root) (before after : List Step) :
    afterRoot (before ++ step :: after) = afterRoot before ++ step :: after := by
  cases before with
  | nil => cases step <;> first | rfl | exact absurd rfl ne
  | cons first rest => cases first <;> rfl

theorem filter_eq_afterRoot {expression : String} {steps : List Step}
    (parsed : parse expression = .ok steps) : steps.filter (· ≠ .root) = afterRoot steps := by
  have others := root_notMem_tail_of_parse parsed
  have kept : ∀ rest : List Step, .root ∉ rest → rest.filter (· ≠ .root) = rest := by
    intro rest noRoot
    refine List.filter_eq_self.mpr ?_
    intro step mem
    have ne : step ≠ .root := fun eq => noRoot (eq ▸ mem)
    simpa using ne
  cases steps with
  | nil => rfl
  | cons first rest =>
      by_cases root : first = .root
      · rw [root, List.filter_cons_of_neg (by simp)]
        exact kept rest others
      · have same : afterRoot (first :: rest) = first :: rest := afterRoot_append root [] rest
        rw [same]
        refine kept _ ?_
        intro mem
        rcases List.mem_cons.mp mem with eq | mem
        · exact root eq.symm
        · exact others mem

end Step

namespace Program

/-- The program of a sequence of steps.  It starts, whether or not the first step is the root, and has an
operation for every further step. -/
def ofSteps (source : String) (steps : List Step) (options : Options) : Except Fault Program := do
  return assemble source steps options (← (Step.afterRoot steps).mapM (Op.compile options))

theorem compile_eq_ofSteps (expression : String) (options : Options) :
    compile expression options =
      Step.parse expression >>= fun steps => ofSteps expression steps options := by
  rw [compile_eq]
  cases parsed : Step.parse expression with
  | error _ => rfl
  | ok steps =>
      show (Step.lower options steps >>= _) = _
      rw [Step.lower, Step.filter_eq_afterRoot parsed]
      rfl

theorem ofSteps_eq_ok_iff {source : String} {steps : List Step} {options : Options}
    {program : Program} :
    ofSteps source steps options = .ok program ↔
      ∃ ops, (Step.afterRoot steps).mapM (Op.compile options) = .ok ops ∧
        program = assemble source steps options ops := by
  constructor
  · intro h
    obtain ⟨ops, compiled, h⟩ := bind_eq_ok_iff.mp h
    cases h
    exact ⟨ops, compiled, rfl⟩
  · rintro ⟨ops, compiled, rfl⟩
    exact bind_eq_ok_iff.mpr ⟨ops, compiled, rfl⟩

theorem ofSteps_append_eq_ok_iff {source : String} {before after : List Step} {step : Step}
    (ne : step ≠ .root) {options : Options} {program : Program} :
    ofSteps source (before ++ step :: after) options = .ok program ↔
      ∃ first op others, (Step.afterRoot before).mapM (Op.compile options) = .ok first ∧
        Op.compile options step = .ok op ∧ after.mapM (Op.compile options) = .ok others ∧
        program = assemble source (before ++ step :: after) options (first ++ op :: others) := by
  rw [ofSteps_eq_ok_iff, Step.afterRoot_append ne]
  constructor
  · rintro ⟨ops, compiled, rfl⟩
    obtain ⟨first, rest, start, remainder, rfl⟩ := mapM_append_eq_ok_iff.mp compiled
    obtain ⟨op, others, next, finish, rfl⟩ := mapM_cons_eq_ok_iff.mp remainder
    exact ⟨first, op, others, start, next, finish, rfl⟩
  · rintro ⟨first, op, others, start, next, finish, rfl⟩
    have rest := mapM_cons_eq_ok_iff.mpr ⟨op, others, next, finish, rfl⟩
    exact ⟨_, mapM_append_eq_ok_iff.mpr ⟨first, op :: others, start, rest, rfl⟩, rfl⟩

/-! ## A sub-path at a branch -/

open Trace

variable {document : Json} {context : Option Registry}

/-- What follows some operations matters only by what it finds. -/
theorem answer_append_congr (ops : List Op) {tail tail' : List Op}
    (same : answer document context tail = answer document context tail') :
    answer document context (ops ++ tail) = answer document context (ops ++ tail') := by
  induction ops with
  | nil => exact same
  | cons op rest ih =>
      rw [List.cons_append, List.cons_append, answer, answer, ih]

theorem successors_subPath (nested : Program) (h : History) :
    Op.successors document context (.subPath nested) h =
      (nested.records document context).map fun records =>
        h.select (h.value document) (keysOf records) := by
  show (nested.recordsByHistory document context >>= _) = _
  rw [← records_eq_recordsByHistory]
  cases nested.records document context <;> rfl

theorem answer_subPath {nested : Program} {records : List Match}
    (found : nested.records document context = .ok records) (rest : List Op) :
    answer document context (.subPath nested :: rest) =
      answer document context (.properties (keysOf records) :: rest) := by
  funext h
  show Op.successors document context (.subPath nested) h >>= _ = _
  rw [successors_subPath, found]
  rfl

theorem answer_subPath_error {nested : Program} {fault : Fault}
    (failed : nested.records document context = .error fault) (rest : List Op) (h : History) :
    answer document context (.subPath nested :: rest) h = .error fault := by
  show Op.successors document context (.subPath nested) h >>= _ = _
  rw [successors_subPath, failed]
  rfl

/-- The program of a sequence of steps with a sub-path, such as that of a path, has in each document and
context the answer that it has with the list of the keys that the sub-path finds there.  If the sub-path
has a fault, it is the fault of the program as soon as the steps before it have a match; the program has
no match if they have none. -/
theorem records_subPath {source text : String} {before after : List Step} {options : Options}
    {program : Program}
    (compiled : ofSteps source (before ++ .subPath text :: after) options = .ok program)
    (document : Json) (context : Option Registry) :
    (Step.parse source = .ok (before ++ .subPath text :: after) →
      compile source options = .ok program) ∧
    ∃ nested start, compile text options.nested = .ok nested ∧
      ofSteps source before options = .ok start ∧
      (∀ records, nested.records document context = .ok records → ∃ listed,
        ofSteps source (before ++ .propertyList (keysOf records) :: after) options = .ok listed ∧
        program.records document context = listed.records document context) ∧
      ∀ fault, nested.records document context = .error fault →
        ∀ found, start.records document context = .ok found →
          program.records document context = if found.isEmpty then .ok [] else .error fault := by
  refine ⟨fun parsed => by rw [compile_eq_ofSteps, parsed]; exact compiled, ?_⟩
  obtain ⟨first, op, others, start, next, finish, rfl⟩ :=
    (ofSteps_append_eq_ok_iff (by simp)).mp compiled
  obtain ⟨nested, nested_compiled, rfl⟩ := map_eq_ok_iff.mp next
  refine ⟨nested, _, nested_compiled, ofSteps_eq_ok_iff.mpr ⟨first, start, rfl⟩, ?_, ?_⟩
  · intro records found
    refine ⟨_, (ofSteps_append_eq_ok_iff (by simp)).mpr
      ⟨first, _, others, start, rfl, finish, rfl⟩, ?_⟩
    rw [records_assemble, records_assemble, List.append_assoc, List.append_assoc]
    exact congrFun (answer_append_congr first (answer_subPath found _)) _
  · intro fault failed found matched
    have plain : ∀ op ∈ first, op ≠ .emit := by
      intro op mem
      obtain ⟨step, _, compiled⟩ := exists_of_mem_mapM start mem
      exact (Op.compiles_of_compile compiled).plain
    obtain ⟨hs, reached, _, rfl⟩ := reached_of_records plain matched
    rw [records_assemble, List.append_assoc, answer_append plain reached]
    cases hs with
    | nil => rfl
    | cons h rest =>
        rw [History.runAll_cons, List.cons_append, answer_subPath_error failed]
        rfl

/-- The items of an array at keys that a function gives for the document: without the function the path
has a fault if there are items, and no match if there are none. -/
theorem records_subPath_call :
    let before : List Step := [.root, .wildcard]
    let nested := assemble "$.f()" [.root, .function "f"] Options.default.nested [.function "f" none]
    let program := assemble "$[*][$.f()]" (before ++ [.subPath "$.f()"]) .default
      [.wildcard, .subPath nested]
    let zeros : Func := ⟨0, fun _ => .ok (.arr [.str "0", .str "0"])⟩
    let context := Registry.empty.register "f" zeros
    let first : Match := ⟨[.root, .key (.index 0), .key (.name "0")], .bool true⟩
    ofSteps "$[*][$.f()]" (before ++ [.subPath "$.f()"]) .default = .ok program ∧
      program.records (.arr []) none = .ok [] ∧
      program.records (.arr [.null]) none = .error (.unresolved "f") ∧
      program.records (.arr [.arr [.bool true]]) (some context) = .ok [first, first] := by
  intro before nested program zeros context first
  have nested_compiled : compile "$.f()" Options.default.nested = .ok nested :=
    compile_eq_ok_iff.mpr ⟨_, _, by rfl, by rfl, rfl⟩
  have start : ofSteps "$[*][$.f()]" before .default =
      .ok (assemble "$[*][$.f()]" before .default [.wildcard]) := rfl
  have compiled : ofSteps "$[*][$.f()]" (before ++ [.subPath "$.f()"]) .default = .ok program := by
    refine (ofSteps_append_eq_ok_iff (by simp)).mpr ⟨[.wildcard], .subPath nested, [], rfl, ?_, rfl, rfl⟩
    exact map_eq_ok_iff.mpr ⟨nested, nested_compiled, rfl⟩
  have fault : ∀ document, nested.records document none = .error (.unresolved "f") := by
    intro document
    rw [records_eq_recordsByHistory]
    rfl
  have keys : ∀ document, nested.records document (some context) =
      .ok [⟨[.root, .call "f()"], .arr [.str "0", .str "0"]⟩] := by
    intro document
    rw [records_eq_recordsByHistory]
    rfl
  have unresolved : ∀ document found,
      (assemble "$[*][$.f()]" before .default [.wildcard]).records document none = .ok found →
      program.records document none =
        if found.isEmpty then .ok [] else .error (.unresolved "f") := by
    intro document found matched
    obtain ⟨-, _, _, nested_eq, start_eq, -, fails⟩ := records_subPath compiled document none
    cases nested_compiled.symm.trans nested_eq
    cases start.symm.trans start_eq
    exact fails _ (fault document) found matched
  refine ⟨compiled, unresolved (.arr []) [] ?_,
    unresolved (.arr [.null]) [⟨[.root, .key (.index 0)], .null⟩] ?_, ?_⟩
  · rw [records_eq_recordsByHistory]
    rfl
  · rw [records_eq_recordsByHistory]
    rfl
  · obtain ⟨-, _, _, nested_eq, -, same, -⟩ :=
      records_subPath compiled (.arr [.arr [.bool true]]) (some context)
    cases nested_compiled.symm.trans nested_eq
    obtain ⟨listed, listed_eq, eq⟩ := same _ (keys _)
    have replaced : listed = assemble "$[*][$.f()]"
        (before ++ [.propertyList [.name "0", .name "0"]]) .default
        [.wildcard, .properties [.name "0", .name "0"]] :=
      Except.ok.inj (listed_eq.symm.trans rfl)
    rw [eq, replaced, records_eq_recordsByHistory]
    rfl

end Program

end TreePath
