/-
# Faults — only scripts and functions can fail a run

A path without scripts, filters and calls, in its sub-paths neither, has matches in every document.  A name
that is missing, a position outside an array or a slice of an object only means that a branch has no
successor.

If no function fails, a fault is that of a script or a filter, or a call finds no function; and it is the
fault of the path exactly if a branch comes to the call, in the path itself or in the run of a sub-path that
a branch comes to.  `faults_of_compile` has all of it.

## How it is proved

`Program.Executes` are the programs that are run in a run of a program.  It is inductive, since sub-paths have
sub-paths, and a nested program counts only if a branch comes to it.

* A fault of a program that is run is the fault of the whole (`Executes.records_eq_error`).
* Conversely a fault comes from an operation of some program that is run, and not from a sub-path
  (`Executes.exists_failsWith`, by the size of the program).
* Which steps can be behind such an operation is read off the compiler (`Op.Compiles.fault_of_failsWith`).
-/
import TreePath.Proofs.Program.Binding
import TreePath.Proofs.Program.Flags
import TreePath.Proofs.Script.Embedding
import TreePath.Proofs.Trail.Faults

namespace TreePath

open Trace

/-! ## Faults of operations -/

section

variable {s : Script} {fault : Fault}

theorem Script.exists_flaw_of_evaluate {value : Json} {path : Option String}
    (failed : s.evaluate value path = .error fault) : ∃ flaw, fault = .script s.source flaw := by
  rw [evaluate] at failed
  cases evaluated : s.expr.eval value path with
  | error flaw =>
      rw [evaluated] at failed
      cases failed
      exact ⟨flaw, rfl⟩
  | ok _ =>
      rw [evaluated] at failed
      cases failed

theorem Script.exists_flaw_of_key {value : Json} {path : Option String}
    (failed : s.key value path = .error fault) : ∃ flaw, fault = .script s.source flaw := by
  rcases bind_eq_error_iff.mp failed with failed | ⟨operand, -, failed⟩
  · exact exists_flaw_of_evaluate failed
  · split at failed
    · cases failed
    · cases failed
      exact ⟨.notAKey, rfl⟩

theorem Script.exists_flaw_of_test {value : Json} {path : Option String}
    (failed : s.test value path = .error fault) : ∃ flaw, fault = .script s.source flaw := by
  rcases bind_eq_error_iff.mp failed with failed | ⟨operand, -, failed⟩
  · exact exists_flaw_of_evaluate failed
  · cases failed

theorem Trace.exists_flaw_of_survivors {t : Trail} {c : Cursor} {candidates : List (Key × Node)}
    (failed : survivors s t c candidates = .error fault) : ∃ flaw, fault = .script s.source flaw := by
  induction candidates with
  | nil => cases failed
  | cons candidate rest ih =>
      rcases bind_eq_error_iff.mp failed with failed | ⟨holds, -, failed⟩
      · exact Script.exists_flaw_of_test failed
      rcases bind_eq_error_iff.mp failed with failed | ⟨others, -, failed⟩
      · exact ih failed
      · cases failed

theorem Trace.resolve_eq_error_iff {context : Option Registry} {name : String}
    {bound : Option Func} :
    resolve context name bound = .error fault ↔
      bound.or (context.bind (·.find? name)) = none ∧ fault = .unresolved name := by
  rw [resolve]
  cases bound.or (context.bind (·.find? name)) with
  | none => simp [eq_comm]
  | some f => simp

end

/-! ## The runs of sub-paths -/

section
variable (document : Json) (context : Option Registry)

/-- The programs that are run in a run of a program: itself, and those of the sub-paths that branches
come to in such runs. -/
inductive Program.Executes (program : Program) : Program → Prop
  | self : Program.Executes program program
  | subPath {outer nested : Program} {c : Cursor} {t : Trail} {i : Instruction} :
      Program.Executes program outer → Reached document context outer.code (.trace c t) →
      outer.code[c.step]? = some i → i.op = .subPath nested → Program.Executes program nested

end

namespace Program

variable {document : Json} {context : Option Registry} {program inner : Program} {fault : Fault}

theorem Executes.runs (executes : program.Executes document context inner) : program.Runs inner := by
  induction executes with
  | self => exact .self
  | subPath _ _ found isSubPath ih => exact .subPath ih (List.mem_of_getElem? found) isSubPath

theorem sizeOf_nested_lt {outer nested : Program} {i : Instruction} (mem : i ∈ outer.code)
    (isSubPath : i.op = .subPath nested) : sizeOf nested < sizeOf outer := by
  obtain ⟨op, flags⟩ := i
  cases isSubPath
  obtain ⟨source, steps, code, options, flags'⟩ := outer
  have smaller := List.sizeOf_lt_of_mem mem
  simp only [Instruction.mk.sizeOf_spec, Op.subPath.sizeOf_spec] at smaller
  simp only [Program.mk.sizeOf_spec]
  omega

section
variable (framed : ∀ inner, program.Runs inner → Framed inner.code)
include framed

theorem Executes.records_eq_error (executes : program.Executes document context inner)
    (failed : inner.records document context = .error fault) :
    program.records document context = .error fault := by
  induction executes with
  | self => exact failed
  | @subPath outer nested c t i executes reached found isSubPath ih =>
      refine ih ((records_eq_error_iff (framed _ executes.runs)).mpr ⟨c, t, i, reached, found, ?_⟩)
      rw [isSubPath]
      exact failed

theorem Executes.exists_failsWith (executes : program.Executes document context inner)
    (failed : inner.records document context = .error fault) :
    ∃ last, program.Executes document context last ∧ ∃ c t i,
      Reached document context last.code (.trace c t) ∧ last.code[c.step]? = some i ∧
      (∀ nested, i.op ≠ .subPath nested) ∧ Op.FailsWith document context c t fault i.op := by
  induction size : sizeOf inner using Nat.strongRecOn generalizing inner with
  | _ size ih =>
      subst size
      obtain ⟨c, t, i, reached, found, fails⟩ :=
        (records_eq_error_iff (framed _ executes.runs)).mp failed
      by_cases isSubPath : ∃ nested, i.op = .subPath nested
      · obtain ⟨nested, isSubPath⟩ := isSubPath
        rw [isSubPath] at fails
        exact ih _ (sizeOf_nested_lt (List.mem_of_getElem? found) isSubPath)
          (executes.subPath reached found isSubPath) fails rfl
      · exact ⟨inner, executes, c, t, i, reached, found,
          fun nested eq => isSubPath ⟨nested, eq⟩, fails⟩

end

end Program

/-! ## Compiled programs -/

/-- Whether a step has a script or calls a function. -/
def Step.computes : Step → Bool
  | .script _ => true
  | .filter _ => true
  | .function _ => true
  | _ => false

section

variable {document : Json} {context : Option Registry} {options : Options} {fault : Fault}

/-- What an operation fails with, unless it is a sub-path, is told by its step. -/
theorem Op.Compiles.fault_of_failsWith {step : Step} {op : Op}
    (compiles : Op.Compiles options step op) (noSubPath : ∀ nested, op ≠ .subPath nested)
    {c : Cursor} {t : Trail} (fails : FailsWith document context c t fault op) :
    (∃ body flaw, (step = .script body ∨ step = .filter body) ∧ fault = .script body flaw) ∨
      ∃ name, step = .function name ∧ op = .function name (options.functions.find? name) := by
  cases compiles with
  | @script body script compiled =>
      obtain ⟨flaw, rfl⟩ := Script.exists_flaw_of_key fails
      rw [(Script.compile_eq_ok_iff.mp compiled).1]
      exact .inl ⟨body, flaw, .inl rfl, rfl⟩
  | @filter body script compiled =>
      obtain ⟨flaw, rfl⟩ := exists_flaw_of_survivors fails
      rw [(Script.compile_eq_ok_iff.mp compiled).1]
      exact .inl ⟨body, flaw, .inr rfl, rfl⟩
  | @function name => exact .inr ⟨name, rfl, rfl⟩
  | subPath _ => exact absurd rfl (noSubPath _)
  | _ => cases fails

end

namespace Program

theorem exists_step_of_mem_code {expression : String} {options : Options} {program : Program}
    (compiled : compile expression options = .ok program) {i : Instruction}
    (mem : i ∈ program.code) :
    i.op = .start ∨ (∃ step ∈ program.steps, Op.Compiles options step i.op) ∨ i.op = .emit := by
  obtain ⟨steps, ops, parsed, lowered, rfl⟩ := compile_eq_ok_iff.mp compiled
  refine (op_of_mem_code mem).imp_right (Or.imp_left ?_)
  intro listed
  obtain ⟨step, step_mem, _, compiles⟩ := Step.exists_of_mem_lower lowered listed
  exact ⟨step, step_mem, compiles⟩

section

variable {expression : String} {options : Options} {program : Program} {document : Json}
  {context : Option Registry} {fault : Fault}

theorem Runs.framed {inner : Program} (runs : program.Runs inner)
    (compiled : compile expression options = .ok program) : Framed inner.code := by
  obtain ⟨text, options', compiled⟩ := runs.compiled compiled
  exact framed_of_compile compiled

/-- A fault of a compiled path is that of a script or a filter in it or its sub-paths, or of a call that
a branch comes to. -/
theorem fault_of_records (compiled : compile expression options = .ok program)
    (failed : program.records document context = .error fault) :
    (∃ inner body flaw, program.Runs inner ∧
      (.script body ∈ inner.steps ∨ .filter body ∈ inner.steps) ∧ fault = .script body flaw) ∨
    ∃ inner name c t i, program.Executes document context inner ∧ .function name ∈ inner.steps ∧
      Reached document context inner.code (.trace c t) ∧ inner.code[c.step]? = some i ∧
      i.op = .function name (options.functions.find? name) ∧
      Op.FailsWith document context c t fault i.op := by
  obtain ⟨inner, executes, c, t, i, reached, found, noSubPath, fails⟩ :=
    Executes.self.exists_failsWith (fun inner runs => runs.framed compiled) failed
  obtain ⟨text, options', functions, inner_compiled⟩ := executes.runs.compiled_functions compiled
  rcases exists_step_of_mem_code inner_compiled (List.mem_of_getElem? found) with
    start | ⟨step, mem, compiles⟩ | emit
  · rw [start] at fails
    cases fails
  · rcases compiles.fault_of_failsWith noSubPath fails with
      ⟨body, flaw, isScript, rfl⟩ | ⟨name, rfl, isCall⟩
    · refine .inl ⟨inner, body, flaw, executes.runs, ?_, rfl⟩
      rcases isScript with rfl | rfl
      · exact .inl mem
      · exact .inr mem
    · rw [functions] at isCall
      exact .inr ⟨inner, name, c, t, i, executes, mem, reached, found, isCall, fails⟩
  · rw [emit] at fails
    cases fails

/-- The matches of a path that computes nothing, in its sub-paths neither, are the branches that its
operations lead to: there always are some, or none. -/
theorem exists_reached_of_computes (compiled : compile expression options = .ok program)
    (computes : ∀ inner, program.Runs inner → ∀ step ∈ inner.steps, step.computes = false) :
    ∃ ops branches, program.code.map Instruction.op = .start :: ops ++ [.emit] ∧
      reached document context ops [(.root, document)] = .ok branches ∧
      program.records document context = .ok (branches.map (History.toMatch document)) := by
  obtain ⟨steps, ops, parsed, lowered, rfl⟩ := compile_eq_ok_iff.mp compiled
  cases found : (assemble expression steps options ops).records document context with
  | ok records =>
      obtain ⟨branches, branches_found, _, rfl⟩ :=
        reached_of_records (Step.plain_of_lower lowered) found
      exact ⟨ops, branches, map_op_assemble expression steps options ops, branches_found, rfl⟩
  | error fault =>
      rcases fault_of_records compiled found with
        ⟨inner, body, _, runs, mem | mem, _⟩ | ⟨inner, name, _, _, _, executes, mem, _⟩
      · cases computes inner runs _ mem
      · cases computes inner runs _ mem
      · cases computes inner executes.runs _ mem

theorem Executes.records_eq_unresolved (compiled : compile expression options = .ok program)
    {inner : Program} (executes : program.Executes document context inner) {c : Cursor} {t : Trail}
    {i : Instruction} (come : Reached document context inner.code (.trace c t))
    (found : inner.code[c.step]? = some i) {name : String} (isCall : i.op = .function name none)
    (absent : context.bind (·.find? name) = none) :
    program.records document context = .error (.unresolved name) := by
  have framed : ∀ inner, program.Runs inner → Framed inner.code :=
    fun inner runs => runs.framed compiled
  refine executes.records_eq_error framed ?_
  refine (records_eq_error_iff (framed inner executes.runs)).mpr ⟨c, t, i, come, found, ?_⟩
  rw [isCall]
  exact bind_eq_error_iff.mpr (.inl (resolve_eq_error_iff.mpr ⟨absent, rfl⟩))

end

/-- No function that a path or one of its sub-paths calls fails, be it one of the options or of the
context. -/
def CallsSucceed (program : Program) (options : Options) (context : Option Registry) : Prop :=
  ∀ inner name f, program.Runs inner → .function name ∈ inner.steps →
    (options.functions.find? name).or (context.bind (·.find? name)) = some f →
    ∀ value, ∃ result, f.apply value = .ok result

theorem CallsSucceed.unresolved {program inner : Program} {options : Options} {document : Json}
    {context : Option Registry} (succeed : program.CallsSucceed options context)
    (runs : program.Runs inner) {name : String} (mem : .function name ∈ inner.steps) {c : Cursor}
    {t : Trail} {fault : Fault} (fails : Op.FailsWith document context c t fault
      (.function name (options.functions.find? name))) :
    options.functions.find? name = none ∧ context.bind (·.find? name) = none ∧
      fault = .unresolved name := by
  rcases bind_eq_error_iff.mp fails with failed | ⟨f, resolved, failed⟩
  · obtain ⟨absent, rfl⟩ := resolve_eq_error_iff.mp failed
    obtain ⟨unbound, absent⟩ := Option.or_eq_none_iff.mp absent
    exact ⟨unbound, absent, rfl⟩
  · obtain ⟨result, applied⟩ := succeed inner name f runs mem (resolve_eq_ok_iff.mp resolved) _
    cases applied.symm.trans failed

/-- Only scripts and functions can fail a run.  A path without them, at any depth of sub-paths, has as
its matches the branches that are left when each operation has put in the place of a branch the successors
that it finds, which can be none.  If the functions that are called never fail, a fault is that of a script
or a filter, with its source, or a call finds no function, neither among those of the options nor in the
context; and this is the fault exactly if a branch comes to such a call. -/
theorem faults_of_compile {expression : String} {options : Options} {program : Program}
    (compiled : compile expression options = .ok program) (document : Json)
    (context : Option Registry) :
    ((∀ inner, program.Runs inner → ∀ step ∈ inner.steps, step.computes = false) →
      ∃ ops branches, program.code.map Instruction.op = .start :: ops ++ [.emit] ∧
        reached document context ops [(.root, document)] = .ok branches ∧
        program.records document context = .ok (branches.map (History.toMatch document))) ∧
    (program.CallsSucceed options context →
      (∀ fault, program.records document context = .error fault →
        (∃ inner body, program.Runs inner ∧
          (.script body ∈ inner.steps ∨ .filter body ∈ inner.steps) ∧
          fault.kind = .evaluation ∧ fault.snippet? = some body) ∨
        ∃ inner name, program.Runs inner ∧ .function name ∈ inner.steps ∧
          options.functions.find? name = none ∧ context.bind (·.find? name) = none ∧
          fault = .unresolved name) ∧
      ∀ name, options.functions.find? name = none → context.bind (·.find? name) = none →
        (program.records document context = .error (.unresolved name) ↔
          ∃ inner c t i, program.Executes document context inner ∧
            Reached document context inner.code (.trace c t) ∧ inner.code[c.step]? = some i ∧
            i.op = .function name none)) := by
  refine ⟨exists_reached_of_computes compiled, fun succeed => ⟨?_, ?_⟩⟩
  · intro fault failed
    rcases fault_of_records compiled failed with
      ⟨inner, body, flaw, runs, mem, rfl⟩ | ⟨inner, name, c, t, i, executes, mem, _, _, isCall, fails⟩
    · exact .inl ⟨inner, body, runs, mem, rfl, rfl⟩
    · rw [isCall] at fails
      exact .inr ⟨inner, name, executes.runs, mem, succeed.unresolved executes.runs mem fails⟩
  · intro name unbound absent
    constructor
    · intro failed
      rcases fault_of_records compiled failed with
        ⟨_, _, _, _, _, ⟨⟩⟩ | ⟨inner, name', c, t, i, executes, mem, come, found, isCall, fails⟩
      rw [isCall] at fails
      obtain ⟨unbound, -, same⟩ := succeed.unresolved executes.runs mem fails
      cases same
      rw [unbound] at isCall
      exact ⟨inner, c, t, i, executes, come, found, isCall⟩
    · rintro ⟨inner, c, t, i, executes, come, found, isCall⟩
      exact executes.records_eq_unresolved compiled come found isCall absent

/-- The parent of the root, which is none, and a call that finds no function, at an item. -/
theorem faults_of_compile_call :
    let above := assemble "$^" [.root, .parent] .default [.parent]
    let call := assemble "$.*.f()" [.root, .wildcard, .function "f"] .default
      [.wildcard, .function "f" none]
    let document := Json.arr [.null]
    compile "$^" .default = .ok above ∧ compile "$.*.f()" .default = .ok call ∧
      (∃ found, above.records document none = .ok found) ∧
      call.CallsSucceed .default none ∧ call.records document none = .error (.unresolved "f") := by
  intro above call document
  have above_compiled : compile "$^" .default = .ok above :=
    compile_eq_ok_iff.mpr ⟨_, _, by rfl, by rfl, rfl⟩
  have call_compiled : compile "$.*.f()" .default = .ok call :=
    compile_eq_ok_iff.mpr ⟨_, _, by rfl, by rfl, rfl⟩
  have succeed : call.CallsSucceed .default none := by
    intro _ _ _ _ _ found
    cases found
  let root := (Trail.empty.push .start (.ofDocument document) .root).2
  let item := (root.push ⟨some 0, 1⟩ (.placed [0] .null) (.key (.index 0))).2
  have begun : Reached document none call.code (.trace ⟨some 0, 1⟩ root) :=
    .next .start rfl fun _ _ planted _ => planted
  have come : Reached document none call.code (.trace ⟨some 1, 2⟩ item) := by
    refine .next begun rfl ?_
    intro fault next planted _
    show next ⟨some 1, 2⟩ item >>= pure = _
    rw [planted]
    rfl
  refine ⟨above_compiled, call_compiled, ?_, succeed, ?_⟩
  · have computes : ∀ inner, above.Runs inner → ∀ step ∈ inner.steps, step.computes = false := by
      intro inner runs
      rw [runs.eq_of_noSubPath (by simp)]
      decide
    obtain ⟨_, _, _, _, records⟩ := (faults_of_compile above_compiled document none).1 computes
    exact ⟨_, records⟩
  · exact (((faults_of_compile call_compiled document none).2 succeed).2 "f" rfl rfl).mpr
      ⟨call, ⟨some 1, 2⟩, item, _, .self, come, rfl, rfl⟩

end Program

end TreePath
