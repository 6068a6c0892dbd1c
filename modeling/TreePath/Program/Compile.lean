/-
# Compile — from a path expression to a program

Each step but the root becomes one operation (`ofStep`), in order, between the start and the emission
(`assemble`).  Scripts are parsed here, functions that are bound are looked up, and those that are not are
left to the run.

A sub-path is compiled with the same functions and presents its matches as a plain sequence of values
(`nested`), whatever the options of the path around it.  The recursion into it ends since its text is
shorter (`Path/Nesting`).

Whether a program can have several matches is known from its operations (`branches`).  If the option `wrap`
was left open it is decided by that, and what it is decided to is part of the program (`resolve`).
-/
import TreePath.Path.Nesting
import TreePath.Program.Basic

namespace TreePath

namespace Op

/-- Whether an operation can have more than one successor. -/
def branches : Op → Bool
  | .wildcard => true
  | .descent => true
  | .properties _ => true
  | .slice _ => true
  | .filter _ => true
  | _ => false

/-- Whether an operation looks at the text of the path. -/
def usesPath : Op → Bool
  | .script s => s.usesPath
  | .filter s => s.usesPath
  | _ => false

/-- The operation of a step, given what a sub-path is compiled to. -/
def ofStep (functions : Registry) {step : Step}
    (nested : (text : String) → step = .subPath text → Except Fault Program) :
    (shape : Step) → step = shape → Except Fault Op
  | .root, _ => .ok .start
  | .wildcard, _ => .ok .wildcard
  | .descent, _ => .ok .descent
  | .parent, _ => .ok .parent
  | .property key, _ => .ok (.property key)
  | .propertyList keys, _ => .ok (.properties keys)
  | .slice s, _ => .ok (.slice s)
  | .script body, _ => (Script.compile body).map .script
  | .filter body, _ => (Script.compile body).map .filter
  | .function name, _ => .ok (.function name (functions.find? name))
  | .subPath text, same => (nested text same).map .subPath

end Op

namespace Options

/-- The options of sub-paths. -/
def nested (options : Options) : Options :=
  ⟨.value, .always, false, options.functions⟩

/-- The options with an open `wrap` decided, if the path can branch. -/
def resolve (options : Options) (branches : Bool) : Options :=
  if options.wrap = .auto ∧ branches then { options with wrap := .always } else options

end Options

namespace Program

/-- An operation with its flags, in a program that goes back to parents or not. -/
def instruction (options : Options) (lookback : Bool) (op : Op) : Instruction :=
  ⟨op, ⟨op.branches, op.usesPath || options.resultType = .path, lookback⟩⟩

/-- The program that runs `ops` between its start and its emission. -/
def assemble (source : String) (steps : List Step) (options : Options) (ops : List Op) : Program :=
  let lookback := steps.any (· = .parent)
  let code := (Op.start :: ops ++ [Op.emit]).map (instruction options lookback)
  let flags := code.foldl (fun flags i => flags.union i.flags) .none
  ⟨source, steps, code, options.resolve flags.branches, flags⟩

def compile (expression : String) (options : Options) : Except Fault Program :=
  match parsed : Step.parse expression with
  | .error fault => .error fault
  | .ok steps => do
    let ops ← (steps.attach.filter (·.val ≠ .root)).mapM fun ⟨step, mem⟩ =>
      let nested text (same : step = .subPath text) :=
        have := Step.length_subPath_lt parsed (same ▸ mem)
        compile text options.nested
      Op.ofStep options.functions nested step rfl
    return assemble expression steps options ops
termination_by expression.toList.length

end Program

end TreePath
