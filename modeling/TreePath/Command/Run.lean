/-
# Run — what commands print

A command may ask for a document, which the caller reads for it: `Command.source?` says where from, and `run`
is told what was found there.  So this module is pure, and files and streams stay outside.

The result is a text, or a `Failure` with its message:

* a query has one line for each match, or the whole result as a document (`outputText`);
* a program is described by a table with a line for each instruction, or as a document (`programText`,
  `programJson`);
* the steps of a path are a list of tokens (`stepsJson`).

Text for terminals has colours, if they are on: `strong` and `bright` are the only two.
-/
import TreePath.Command.Basic
import TreePath.Json.Reader
import TreePath.Output

namespace TreePath

inductive Failure where
  | fault (fault : Fault)
  /-- The document could not be read. -/
  | unreadable (origin : String)
  /-- What was read is not a document. -/
  | invalidDocument (origin : String)
deriving DecidableEq

def Failure.message : Failure → String
  | .fault f => f.display
  | .unreadable origin => "failed to read " ++ origin
  | .invalidDocument origin => origin ++ " is not valid JSON"

inductive Source where
  | standardInput
  | file (path : String)
deriving DecidableEq

namespace Source

/-- The source that a file argument names. -/
def ofArgument : Option String → Source
  | none => .standardInput
  | some "-" => .standardInput
  | some path => .file path

/-- How many containers may be nested in a document. -/
def depthLimit : Nat := 127

/-- The document in what was read from a source, if it could be read. -/
def document (source : Source) (contents : Option String) : Except Failure Json :=
  match contents with
  | none =>
    .error (.unreadable (match source with | .standardInput => "stdin" | .file path => path))
  | some text =>
    match Json.read? depthLimit text with
    | some document => .ok document
    | none =>
      .error (.invalidDocument (match source with | .standardInput => "<stdin>" | .file path => path))

end Source

/-- The document that a command needs. -/
def Command.source? : Command → Option Source
  | .query _ file _ _ => some (Source.ofArgument file)
  | _ => none

namespace Command

/-- The escape sequence with the given parameters. -/
def escapeSequence (parameters : String) : String :=
  "\x1b[" ++ parameters ++ "m"

/-- Text in the colour of operations and paths, if colours are on. -/
def strong (color : Bool) (text : String) : String :=
  if color then
    escapeSequence "38;2;079;166;255" ++ escapeSequence "1" ++ text ++ escapeSequence "0"
      ++ escapeSequence "39"
  else text

/-- Text in the colour of values, if colours are on. -/
def bright (color : Bool) (text : String) : String :=
  if color then escapeSequence "38;2;136;192;074" ++ text ++ escapeSequence "39" else text

def yesNo (flag : Bool) : String :=
  if flag then "yes" else "no"

/-- The text without blanks at its end. -/
def trimEnd (text : String) : String :=
  String.ofList (Text.trimRight text.toList)

/-- Lines, each with its end. -/
def unlines (lines : List String) : String :=
  String.join (lines.map (· ++ "\n"))

/-- A presented match on one line. -/
def matchedLine (color : Bool) : Matched → String
  | .path path => strong color path
  | .value value => bright color value.write

def outputText (color : Bool) (output : Output) : String :=
  trimEnd (unlines (output.toList.map (matchedLine color)))

/-- A number with a blank in front of a single digit. -/
def padded (n : Nat) : String :=
  let digits := Text.decimal n
  if digits.length < 2 then " " ++ digits else digits

/-- An instruction on one line. -/
def instructionLine (color : Bool) (index : Nat) (i : Instruction) : String :=
  "  " ++ padded index ++ ". " ++ strong color i.op.text
    ++ " (branches: " ++ yesNo i.flags.branches
    ++ ", path: " ++ yesNo i.flags.needsPath
    ++ ", lookback: " ++ yesNo i.flags.needsLookback ++ ")"

def programText (color : Bool) (program : Program) : String :=
  trimEnd (unlines
    (["Expression: " ++ program.source,
      "Normalized: " ++ ";".intercalate (program.steps.map Step.token),
      "Result type: " ++ program.options.resultType.text
        ++ ", wrap: " ++ program.options.wrap.text
        ++ ", flatten: " ++ yesNo program.options.flatten,
      "Steps:"]
      ++ program.code.zipIdx.map fun (i, index) => instructionLine color index i))

/-- The description of an instruction as a JSON value. -/
def instructionJson (index : Nat) (i : Instruction) : Json :=
  .obj [("index", .ofNat index), ("op", .str i.op.text), ("branches", .bool i.flags.branches),
    ("needs_path", .bool i.flags.needsPath), ("needs_lookback", .bool i.flags.needsLookback)]

/-- The tokens of steps as a JSON value. -/
def stepsJson (steps : List Step) : Json :=
  .arr (steps.map fun step => .str step.token)

/-- The description of a program as a JSON value. -/
def programJson (program : Program) : Json :=
  .obj [("expression", .str program.source), ("normalized", stepsJson program.steps),
    ("result_type", .str program.options.resultType.text),
    ("wrap", .str program.options.wrap.text), ("flatten", .bool program.options.flatten),
    ("steps", .arr (program.code.zipIdx.map fun (i, index) => instructionJson index i))]

def faulty {α : Type} (result : Except Fault α) : Except Failure α :=
  result.mapError .fault

/-- Runs a command; `contents` is what was read from its source. -/
def run (command : Command) (color : Bool) (contents : Option String) : Except Failure String :=
  match command with
  | .query expression file settings format => do
    let document ← (Source.ofArgument file).document contents
    let program ← faulty (Program.compile expression settings.options)
    let output ← faulty (program.evaluate document none)
    match format with
    | .text => return outputText color output
    | .json => return output.toJson.writePretty ""
  | .explain expression settings format => do
    let program ← faulty (Program.compile expression settings.options)
    match format with
    | .text => return programText color program
    | .json => return (programJson program).writePretty ""
  | .normalize expression format => do
    let steps ← faulty (Step.parse expression)
    match format with
    | .text => return "\n".intercalate (steps.map Step.token)
    | .json => return (stepsJson steps).writePretty ""

/-- What is printed of a result: a line end follows, unless there is nothing to print. -/
def printed (result : String) : String :=
  if result.isEmpty then "" else result ++ "\n"

end Command

end TreePath
