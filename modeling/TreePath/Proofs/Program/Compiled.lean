/-
# Compiled — what an expression is compiled to

The compiler is a recursion on the length of the expression, with the checks of each step inside.  For proofs
it is put in a form that has the steps apart.

* `Op.Compiles` relates a step to what it is compiled to, with one constructor for each kind of step.
* `Step.lower` compiles the steps of a path in order; `compile_eq` and `compile_eq_ok_iff` say that compiling
  an expression is parsing, lowering and assembling.

Every step but the root becomes one operation, so the operations of a longer path are those of its parts:
`compile_append` is for a path that goes on with a separator.
-/
import TreePath.Program.Compile
import TreePath.Proofs.Path.Continuation
import TreePath.Proofs.Results

namespace TreePath

def Op.compile (options : Options) (step : Step) : Except Fault Op :=
  Op.ofStep options.functions (fun text _ => Program.compile text options.nested) step rfl

/-- The operations that steps are compiled to; the root is the start of every program. -/
def Step.lower (options : Options) (steps : List Step) : Except Fault (List Op) :=
  (steps.filter (· ≠ .root)).mapM (Op.compile options)

inductive Op.Compiles (options : Options) : Step → Op → Prop
  | root : Op.Compiles options .root .start
  | wildcard : Op.Compiles options .wildcard .wildcard
  | descent : Op.Compiles options .descent .descent
  | parent : Op.Compiles options .parent .parent
  | property {key : Key} : Op.Compiles options (.property key) (.property key)
  | propertyList {keys : List Key} : Op.Compiles options (.propertyList keys) (.properties keys)
  | slice {s : Slice} : Op.Compiles options (.slice s) (.slice s)
  | script {body : String} {script : Script} : Script.compile body = .ok script →
      Op.Compiles options (.script body) (.script script)
  | filter {body : String} {script : Script} : Script.compile body = .ok script →
      Op.Compiles options (.filter body) (.filter script)
  | function {name : String} :
      Op.Compiles options (.function name) (.function name (options.functions.find? name))
  | subPath {text : String} {nested : Program} :
      Program.compile text options.nested = .ok nested →
      Op.Compiles options (.subPath text) (.subPath nested)

theorem Op.compiles_of_compile {options : Options} {step : Step} {op : Op}
    (h : Op.compile options step = .ok op) : Op.Compiles options step op := by
  cases step with
  | root => cases h; exact .root
  | wildcard => cases h; exact .wildcard
  | descent => cases h; exact .descent
  | parent => cases h; exact .parent
  | property key => cases h; exact .property
  | propertyList keys => cases h; exact .propertyList
  | slice s => cases h; exact .slice
  | script body =>
      obtain ⟨script, compiled, rfl⟩ := map_eq_ok_iff.mp h
      exact .script compiled
  | filter body =>
      obtain ⟨script, compiled, rfl⟩ := map_eq_ok_iff.mp h
      exact .filter compiled
  | function name => cases h; exact .function
  | subPath text =>
      obtain ⟨nested, compiled, rfl⟩ := map_eq_ok_iff.mp h
      exact .subPath compiled

theorem Op.Compiles.plain {options : Options} {step : Step} {op : Op}
    (h : Op.Compiles options step op) : op ≠ .emit := by
  cases h <;> exact fun eq => nomatch eq

namespace Step

/-- A path that goes on with a separator has the steps of the path and those of the rest. -/
theorem parse_append {path rest : String} {steps others : List Step}
    (separator : rest.toList.head? = some '.' ∨ rest.toList.head? = some '[')
    (parsed : parse path = .ok steps) (parsed' : parse ("$" ++ rest) = .ok others) :
    ∃ added, others = .root :: added ∧ parse (path ++ rest) = .ok (steps ++ added) := by
  obtain ⟨c, begins, isSeparator⟩ : ∃ c, rest.toList.head? = some c ∧
      Scan.isSeparator c = true := by
    rcases separator with begins | begins
    · exact ⟨_, begins, rfl⟩
    · exact ⟨_, begins, rfl⟩
  have root : parse "$" = .ok [.root] := rfl
  rw [parse_continued root begins isSeparator] at parsed'
  rw [parse_continued parsed begins isSeparator]
  cases scanned : Scan.steps rest.toList with
  | error _ =>
      rw [scanned] at parsed'
      cases parsed'
  | ok added =>
      rw [scanned] at parsed'
      cases parsed'
      exact ⟨added, rfl, rfl⟩

theorem exists_of_mem_lower {options : Options} {steps : List Step} {ops : List Op}
    (h : lower options steps = .ok ops) {op : Op} (mem : op ∈ ops) :
    ∃ step ∈ steps, step ≠ .root ∧ Op.Compiles options step op := by
  obtain ⟨step, step_mem, compiled⟩ := exists_of_mem_mapM h mem
  obtain ⟨step_mem, ne⟩ := List.mem_filter.mp step_mem
  exact ⟨step, step_mem, by simpa using ne, Op.compiles_of_compile compiled⟩

/-- Only the end of a program emits. -/
theorem plain_of_lower {options : Options} {steps : List Step} {ops : List Op}
    (h : lower options steps = .ok ops) : ∀ op ∈ ops, op ≠ .emit := by
  intro op mem
  obtain ⟨_, _, _, compiles⟩ := exists_of_mem_lower h mem
  exact compiles.plain

theorem lower_append (options : Options) (a b : List Step) :
    lower options (a ++ b) = do return (← lower options a) ++ (← lower options b) := by
  rw [lower, List.filter_append, List.mapM_append]
  rfl

theorem lower_root (options : Options) (steps : List Step) :
    lower options (.root :: steps) = lower options steps := by
  rw [lower, List.filter_cons_of_neg (by simp)]
  rfl

end Step

namespace Program

theorem compile_eq (expression : String) (options : Options) :
    compile expression options =
      Step.parse expression >>= fun steps =>
        Step.lower options steps >>= fun ops => .ok (assemble expression steps options ops) := by
  rw [compile]
  split
  · rename_i fault parsed
    rw [parsed]
    rfl
  · rename_i steps parsed
    have kept : (steps.attach.filter (·.val ≠ .root)).unattach = steps.filter (· ≠ .root) := by
      rw [@List.unattach_filter _ _ _ _ (fun step => decide (step ≠ .root)) fun _ _ => rfl,
        List.unattach_attach]
    have lowered : Step.lower options steps = (steps.attach.filter (·.val ≠ .root)).mapM
        fun step => Op.compile options step.val := by
      rw [List.mapM_subtype fun _ _ => rfl, kept]
      rfl
    conv_rhs => rw [parsed]
    show _ = Step.lower options steps >>= _
    rw [lowered]
    rfl

theorem compile_eq_ok_iff {expression : String} {options : Options} {program : Program} :
    compile expression options = .ok program ↔
      ∃ steps ops, Step.parse expression = .ok steps ∧ Step.lower options steps = .ok ops ∧
        program = assemble expression steps options ops := by
  rw [compile_eq]
  constructor
  · intro h
    obtain ⟨steps, parsed, h⟩ := bind_eq_ok_iff.mp h
    obtain ⟨ops, lowered, h⟩ := bind_eq_ok_iff.mp h
    cases h
    exact ⟨steps, ops, parsed, lowered, rfl⟩
  · rintro ⟨steps, ops, parsed, lowered, rfl⟩
    exact bind_eq_ok_iff.mpr ⟨steps, parsed, bind_eq_ok_iff.mpr ⟨ops, lowered, rfl⟩⟩

theorem compile_append {path rest : String} {options : Options} {outer inner : Program}
    (separator : rest.toList.head? = some '.' ∨ rest.toList.head? = some '[')
    (first : compile path options = .ok outer)
    (others : compile ("$" ++ rest) options = .ok inner) :
    ∃ steps added ops more, outer = assemble path steps options ops ∧
      inner = assemble ("$" ++ rest) (.root :: added) options more ∧
      Step.lower options steps = .ok ops ∧ Step.lower options added = .ok more ∧
      compile (path ++ rest) options =
        .ok (assemble (path ++ rest) (steps ++ added) options (ops ++ more)) := by
  obtain ⟨steps, ops, parsed, lowered, rfl⟩ := compile_eq_ok_iff.mp first
  obtain ⟨steps', more, parsed', lowered', rfl⟩ := compile_eq_ok_iff.mp others
  obtain ⟨added, rfl, whole⟩ := Step.parse_append separator parsed parsed'
  rw [Step.lower_root] at lowered'
  refine ⟨steps, added, ops, more, rfl, rfl, lowered, lowered', ?_⟩
  refine compile_eq_ok_iff.mpr ⟨steps ++ added, ops ++ more, whole, ?_, rfl⟩
  rw [Step.lower_append, lowered, lowered']
  rfl

end Program

end TreePath
