/-
# Binding — the functions of a path are bound when it is compiled, or when it runs

A step that found its function when it was compiled keeps it.  The others look in the context of the run, and
so do the sub-paths, with the functions and the context of the path around them.  So a path that is compiled
with some functions `R` and runs in a context `C` should do what it does with both at once.

`map_records_extend` is that equation: compile with `R` and run in `C`, or compile with `C` extended by `R`
and run without a context.  Both are compiled or neither is, with the same fault, and then have the same
matches or the same fault.

* The registries: of two functions of one name the added one is found (`find?_extend`), whatever the orders
  of registration.
* The operations: only calls and sub-paths look at functions and at the context (`Op.IgnoresContext`), and
  `records_assemble_runs` says that the records of a program depend on what its operations do and not on
  what they are.  So it is enough to compare what they do, by induction on the compilation.
-/
import TreePath.Proofs.Program.Compiled
import TreePath.Trace.Run

namespace TreePath

namespace Registry

theorem lookup_cons (name : String) (f : Func) (entries : List (String × Func)) (n : String) :
    ((name, f) :: entries).lookup n = if n = name then some f else entries.lookup n := by
  rw [List.lookup_cons]
  by_cases same : n = name
  · rw [if_pos same, same, beq_self_eq_true]
  · rw [if_neg same, beq_false_of_ne same]

theorem lookup_insertEntry (name : String) (f : Func) (entries : List (String × Func))
    (n : String) :
    (insertEntry name f entries).lookup n = if n = name then some f else entries.lookup n := by
  induction entries with
  | nil => exact lookup_cons name f [] n
  | cons entry entries ih =>
      obtain ⟨other, g⟩ := entry
      rw [insertEntry]
      split
      · exact lookup_cons name f _ n
      split
      · rename_i eq
        rw [lookup_cons, lookup_cons, eq]
        by_cases same : n = other
        · rw [if_pos same, if_pos same]
        · rw [if_neg same, if_neg same, if_neg same]
      · rename_i ne
        rw [lookup_cons, lookup_cons, ih]
        by_cases same : n = other
        · rw [if_pos same, if_pos same, same, if_neg (Ne.symm ne)]
        · rw [if_neg same, if_neg same]

theorem find?_register (registry : Registry) (name : String) (f : Func) (n : String) :
    (registry.register name f).find? n = if n = name then some f else registry.find? n :=
  lookup_insertEntry name f registry.entries n

/-- Entries of other names do not change what is found. -/
theorem find?_foldl_of_notMem {entries : List (String × Func)} {n : String}
    (absent : n ∉ entries.map Prod.fst) (registry : Registry) :
    (entries.foldl (fun r entry => r.register entry.1 entry.2) registry).find? n =
      registry.find? n := by
  induction entries generalizing registry with
  | nil => rfl
  | cons entry rest ih =>
      rw [List.map_cons, List.mem_cons, not_or] at absent
      rw [List.foldl_cons, ih absent.2, find?_register, if_neg absent.1]

theorem find?_ofList {entries : List (String × Func)} (distinct : (entries.map Prod.fst).Nodup)
    {n : String} {f : Func} (mem : (n, f) ∈ entries) : (ofList entries).find? n = some f := by
  suffices found : ∀ registry : Registry,
      (entries.foldl (fun r entry => r.register entry.1 entry.2) registry).find? n = some f from
    found empty
  intro registry
  induction entries generalizing registry with
  | nil => cases mem
  | cons entry rest ih =>
      rw [List.map_cons, List.nodup_cons] at distinct
      rw [List.foldl_cons]
      rcases List.mem_cons.mp mem with rfl | mem
      · rw [find?_foldl_of_notMem distinct.1, find?_register, if_pos rfl]
      · exact ih distinct.2 mem _

/-- A name is registered last where it stands in ascending entries, since it stands there once. -/
theorem find?_foldl_register {entries : List (String × Func)} (ascending : Ascending entries)
    (registry : Registry) (n : String) :
    (entries.foldl (fun r entry => r.register entry.1 entry.2) registry).find? n =
      (entries.lookup n).or (registry.find? n) := by
  induction entries generalizing registry with
  | nil => rfl
  | cons entry entries ih =>
      obtain ⟨name, f⟩ := entry
      obtain ⟨least, others⟩ := List.pairwise_cons.mp ascending
      rw [List.foldl_cons, ih others, find?_register, lookup_cons]
      by_cases same : n = name
      · have absent : entries.lookup n = none := by
          rw [List.lookup_eq_none_iff]
          intro entry mem
          rw [same, bne_iff_ne]
          exact Std.ne_of_lt (least entry mem)
        rw [absent, if_pos same, if_pos same]
        rfl
      · rw [if_neg same, if_neg same]

theorem find?_extend (registry other : Registry) (n : String) :
    (registry.extend other).find? n = (other.find? n).or (registry.find? n) :=
  find?_foldl_register other.ascending registry n

end Registry

theorem Trace.resolve_eq_ok_iff {context : Option Registry} {name : String} {bound : Option Func}
    {f : Func} :
    resolve context name bound = .ok f ↔ bound.or (context.bind (·.find? name)) = some f := by
  rw [resolve]
  cases bound.or (context.bind (·.find? name)) <;> simp

open Trace

variable (document : Json)

/-! ## Runs of operations -/

/-- Goes on with the children whose keys a sub-path gave. -/
def Trace.runKeys (records : Except Fault (List Match)) (next : Next) : Next := fun c t => do
  fanOut next c t (select ((t.node? c).getD (.ofDocument document)) (keysOf (← records)))

/-- Goes on with the result of a function. -/
def Trace.runCall (name : String) (f : Except Fault Func) (next : Next) : Next := fun c t => do
  let value ← (← f).apply ((t.node? c).getD (.ofDocument document)).value
  proceed next c t (.call (name ++ "()")) (.ofResult t.frames.size value)

theorem Op.run_subPath (context : Option Registry) (nested : Program) :
    Op.run document context (.subPath nested) =
      runKeys document (nested.records document context) := by
  funext next c t
  rw [Op.run]
  rfl

theorem Op.run_function (context : Option Registry) (name : String) (bound : Option Func) :
    Op.run document context (.function name bound) =
      runCall document name (resolve context name bound) := by
  funext next c t
  rw [Op.run]
  rfl

/-- Whether an operation does the same in every context. -/
def Op.IgnoresContext : Op → Prop
  | .function _ _ => False
  | .subPath _ => False
  | _ => True

theorem Op.run_ignoresContext {op : Op} (h : op.IgnoresContext)
    (context context' : Option Registry) :
    op.run document context = op.run document context' := by
  funext next c t
  cases op with
  | function name bound => cases h
  | subPath nested => cases h
  | _ => rw [Op.run, Op.run]

/-- Runs, one after the other, and the emission. -/
def Trace.runAllOf (runs : List (Next → Next)) : Next :=
  Op.run document none .start
    (runs.foldr (fun run next => run next) (Op.run document none .emit fun _ t => .ok t))

namespace Program

theorem runCode_ops (context : Option Registry) (options : Options) (lookback : Bool)
    (ops : List Op) :
    runCode document context ((ops ++ [Op.emit]).map (instruction options lookback)) =
      (ops.map (Op.run document context)).foldr (fun run next => run next)
        (Op.run document none .emit fun _ t => .ok t) := by
  induction ops with
  | nil =>
      have emit := Op.run_ignoresContext document (show Op.IgnoresContext .emit from trivial)
      show Instruction.run document context (instruction options lookback .emit)
        (runCode document context []) = _
      rw [instruction, Instruction.run, runCode, emit context none]
      rfl
  | cons op ops ih =>
      show Instruction.run document context (instruction options lookback op)
        (runCode document context ((ops ++ [Op.emit]).map (instruction options lookback))) = _
      rw [ih, instruction, Instruction.run]
      rfl

/-- The records of a program depend on what its operations do in the context, and not on what they
are. -/
theorem records_assemble_runs (context : Option Registry) (source : String) (steps : List Step)
    (options : Options) (ops : List Op) :
    (assemble source steps options ops).records document context =
      (runAllOf document (ops.map (Op.run document context)) .start .empty).map Trail.records := by
  have start := Op.run_ignoresContext document (show Op.IgnoresContext .start from trivial)
  rw [assemble, records]
  show (do
    let t ← Instruction.run document context (instruction options _ .start)
      (runCode document context ((ops ++ [Op.emit]).map (instruction options _))) .start .empty
    return t.records) = _
  rw [runCode_ops, instruction, Instruction.run, start context none]
  rfl

theorem resolve_extend (R C : Registry) (name : String) :
    resolve none name ((C.extend R).find? name) = resolve (some C) name (R.find? name) := by
  rw [resolve, resolve, Registry.find?_extend, Option.bind_none, Option.or_none, Option.bind_some]

section

variable (R C : Registry)

/-- What the operation of a step does is the same for both ways of binding, if that holds of the
programs of its sub-path. -/
theorem map_compile_run (options : Options) (step : Step)
    (nested : ∀ text, step = .subPath text →
      (compile text { options.nested with functions := R }).map
          (fun program => program.records document (some C)) =
        (compile text { options.nested with functions := C.extend R }).map
          (fun program => program.records document none)) :
    (Op.compile { options with functions := R } step).map (Op.run document (some C)) =
      (Op.compile { options with functions := C.extend R } step).map (Op.run document none) := by
  have same : ∀ {op : Op}, op.IgnoresContext →
      Op.run document (some C) op = Op.run document none op :=
    fun ignores => Op.run_ignoresContext document ignores (some C) none
  cases step with
  | root => exact congrArg Except.ok (same trivial)
  | wildcard => exact congrArg Except.ok (same trivial)
  | descent => exact congrArg Except.ok (same trivial)
  | parent => exact congrArg Except.ok (same trivial)
  | property key => exact congrArg Except.ok (same trivial)
  | propertyList keys => exact congrArg Except.ok (same trivial)
  | slice s => exact congrArg Except.ok (same trivial)
  | script body =>
      show ((Script.compile body).map Op.script).map _ = ((Script.compile body).map Op.script).map _
      cases Script.compile body with
      | error _ => rfl
      | ok script => exact congrArg Except.ok (same trivial)
  | filter body =>
      show ((Script.compile body).map Op.filter).map _ = ((Script.compile body).map Op.filter).map _
      cases Script.compile body with
      | error _ => rfl
      | ok script => exact congrArg Except.ok (same trivial)
  | function name =>
      show Except.ok (Op.run document (some C) (.function name (R.find? name))) =
        Except.ok (Op.run document none (.function name ((C.extend R).find? name)))
      rw [Op.run_function, Op.run_function, resolve_extend]
  | subPath text =>
      show ((compile text { options.nested with functions := R }).map Op.subPath).map _ =
        ((compile text { options.nested with functions := C.extend R }).map Op.subPath).map _
      have records := congrArg (Except.map (runKeys document)) (nested text rfl)
      rw [map_map, map_map] at records ⊢
      simp only [Op.run_subPath]
      exact records

theorem map_compile_records (context : Option Registry) {expression : String} {steps : List Step}
    (parsed : Step.parse expression = .ok steps) (options : Options) :
    (compile expression options).map (fun program => program.records document context) =
      ((Step.lower options steps).map (List.map (Op.run document context))).map fun runs =>
        (runAllOf document runs .start .empty).map Trail.records := by
  rw [compile_eq, parsed, map_map]
  show (Step.lower options steps >>= _).map _ = _
  cases Step.lower options steps with
  | error _ => rfl
  | ok ops => exact congrArg Except.ok (records_assemble_runs document context _ _ _ _)

/-- Early and late binding agree: a path that is compiled with the functions `R` and runs in a context
with the functions `C` is compiled, has its matches and fails like the path that is compiled with `C`
extended by `R` and runs without a context. -/
theorem map_records_extend (expression : String) (options : Options) :
    (compile expression { options with functions := R }).map
        (fun program => program.records document (some C)) =
      (compile expression { options with functions := C.extend R }).map
        (fun program => program.records document none) := by
  induction length : expression.toList.length using Nat.strongRecOn generalizing expression options with
  | _ n ih =>
      cases parsed : Step.parse expression with
      | error fault =>
          rw [compile_eq, compile_eq, parsed]
          rfl
      | ok steps =>
          rw [map_compile_records document _ parsed, map_compile_records document _ parsed]
          refine congrArg (Except.map _) (map_mapM_congr ?_)
          intro step mem
          refine map_compile_run document R C options step ?_
          rintro text rfl
          have shorter := Step.length_subPath_lt parsed (List.mem_of_mem_filter mem)
          rw [length] at shorter
          exact ih text.toList.length shorter text options.nested rfl

end

end Program

end TreePath
