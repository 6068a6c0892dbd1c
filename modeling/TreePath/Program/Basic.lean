/-
# Program — a compiled path

A program is a list of instructions, the first of which starts at the document and the last of which emits
the current location.  Between them there is one for each step of the path.  Sub-paths hold programs of
their own, so `Op` and `Program` are defined together.

An instruction has flags, which say what is known of it before it runs: whether it can have more than one
successor, whether it looks at the text of the path, and whether its program goes back to parents.  A
program has the union of the flags of its instructions.

Programs can be described in two forms, the short text of each operation (`Op.text`) and its structure with
quoted texts (`describe`).
-/
import TreePath.Options
import TreePath.Path.Step
import TreePath.Script.Eval
import TreePath.Text.Quoted

namespace TreePath

/-- What is known of an instruction before it runs. -/
structure Flags where
  /-- It can have more than one successor. -/
  branches : Bool
  /-- It needs the text of the current path. -/
  needsPath : Bool
  /-- The program goes back to parents. -/
  needsLookback : Bool
deriving DecidableEq, Inhabited, Repr

namespace Flags

def none : Flags :=
  ⟨false, false, false⟩

/-- The flags that hold of one or the other. -/
def union (a b : Flags) : Flags :=
  ⟨a.branches || b.branches, a.needsPath || b.needsPath, a.needsLookback || b.needsLookback⟩

end Flags

mutual

inductive Op where
  /-- Goes to the document. -/
  | start
  | property (key : Key)
  | wildcard
  | descent
  | parent
  | properties (keys : List Key)
  | slice (slice : Slice)
  | script (script : Script)
  | filter (script : Script)
  /-- Calls a function, which may be bound already. -/
  | function (name : String) (bound : Option Func)
  /-- Selects the keys that a program finds in the document. -/
  | subPath (nested : Program)
  /-- Reports the current location. -/
  | emit

/-- An operation with its flags. -/
structure Instruction where
  op : Op
  flags : Flags

/-- A compiled path. -/
structure Program where
  source : String
  steps : List Step
  code : List Instruction
  /-- The options with `wrap` resolved. -/
  options : Options
  /-- The union of the flags of the instructions. -/
  flags : Flags

end

instance : Inhabited Op := ⟨.start⟩
instance : Inhabited Instruction := ⟨⟨.start, .none⟩⟩
instance : Inhabited Program := ⟨⟨"", [], [], .default, .none⟩⟩

namespace Op

/-- The short description of an operation. -/
def text : Op → String
  | .start => "start"
  | .property key => "property " ++ key.text
  | .wildcard => "wildcard"
  | .descent => "recursive-descent"
  | .parent => "parent"
  | .properties keys => "properties " ++ Step.keysText keys
  | .slice s => "slice " ++ s.text
  | .script s => "script (" ++ s.source ++ ")"
  | .filter s => "filter ?(" ++ s.source ++ ")"
  | .function name (some _) => "function " ++ name ++ "()"
  | .function name none => "function " ++ name ++ "() (deferred)"
  | .subPath nested => "subpath " ++ nested.source
  | .emit => "emit"

def applied (name : String) (part : String) : String :=
  name ++ "(" ++ part ++ ")"

def record (name : String) (fields : List (String × String)) : String :=
  name ++ " \x7b " ++ ", ".intercalate (fields.map fun (field, value) => field ++ ": " ++ value)
    ++ " \x7d"

def keyStructure : Key → String
  | .index position => applied "Index" (Text.decimal position)
  | .name text => applied "Name" (Text.quoted text)

/-- The structure of a bound. -/
def boundStructure : Option Int → String
  | some bound => applied "Some" (Text.signedDecimal bound)
  | none => "None"

def describe : Op → String
  | .start => "Start"
  | .property key => applied "Property" (keyStructure key)
  | .wildcard => "Wildcard"
  | .descent => "RecursiveDescent"
  | .parent => "Parent"
  | .properties keys =>
    applied "Properties" ("[" ++ ", ".intercalate (keys.map keyStructure) ++ "]")
  | .slice s =>
    applied "Slice" (record "Slice" [("start", boundStructure s.start),
      ("end", boundStructure s.stop), ("step", boundStructure s.step)])
  | .script s => applied "Script" (Text.quoted s.source)
  | .filter s => applied "Filter" (Text.quoted s.source)
  | .function name bound =>
    record "Function" [("name", Text.quoted name), ("bound", if bound.isSome then "true" else "false")]
  | .subPath nested => applied "SubPath" (Text.quoted nested.source)
  | .emit => "Emit"

end Op

end TreePath
