/-
# Arguments — from the words of a command line to a command

Words are taken from left to right.  A value that follows its option as a word of its own is checked when
the next word is understood, or at the end; so a word that is not understood is reported before an unchecked
value.  After `--` every word is positional.

## The parts

* `Draft` is what was understood so far, with the value that is still to be checked.  `Draft.take` takes one
  word, by its kind: `Draft.long` after two dashes, `Draft.short` after one, `Draft.positional` otherwise.
* `Draft.finish` is the command, if all that it needs was given.  Defaults are filled in only there, by
  `Draft.settings`.
* `parseFrom` has the words before the name of a command, and hands the rest to `parseVerb` or `parseHelp`.

A failure is a `Usage`: a request for help or for the version, or what is wrong with the words.  What is
printed for one is not part of the library; the outer layer has the texts.
-/
import TreePath.Command.Basic

namespace TreePath

inductive Usage where
  | help
  | version
  | noCommand
  | missingCommand
  | unknownCommand
  | missingArgument
  | unknownArgument
  /-- An option without a value, or with a value that is not one of its words. -/
  | invalidValue
  /-- An option with a value that cannot be read. -/
  | unreadableValue
  | repeatedOption
  /-- A flag with a value. -/
  | surplusValue
deriving DecidableEq, Repr

namespace Arguments

/-- The commands by name. -/
inductive Verb where
  | query
  | explain
  | normalize
deriving DecidableEq, Repr

def Verb.ofName? : String → Option Verb
  | "query" => some .query
  | "explain" => some .explain
  | "normalize" => some .normalize
  | _ => none

/-- Options with a value. -/
inductive Setting where
  | resultType
  | wrap
  | format
deriving DecidableEq, Repr

/-- Words with two dashes, as a command understands them. -/
inductive Flag where
  | setting (setting : Setting)
  | flatten
  | noStandard
  | verbose
  | help
deriving DecidableEq, Repr

def Flag.ofName? (verb : Verb) (name : String) : Option Flag :=
  match name with
  | "format" => some (.setting .format)
  | "verbose" => some .verbose
  | "help" => some .help
  | _ =>
    if verb = .normalize then none
    else
      match name with
      | "result-type" => some (.setting .resultType)
      | "wrap" => some (.setting .wrap)
      | "flatten" => some .flatten
      | "no-std-functions" => some .noStandard
      | _ => none

/-- The format with a name, in lower case only. -/
def format? : String → Option Format
  | "text" => some .text
  | "json" => some .json
  | _ => none

/-- What was understood of a command. -/
structure Draft where
  positionals : List String
  resultType : Option ResultType
  wrap : Option Wrap
  format : Option Format
  flatten : Bool
  noStandard : Bool
  verbosity : Nat
  /-- The option whose value is not checked yet, with the value if it came. -/
  pending : Option (Setting × Option String)
  /-- Whether `--` has come. -/
  positionalOnly : Bool

def Draft.empty : Draft :=
  ⟨[], none, none, none, false, false, 0, none, false⟩

/-- Sets an option that is not set. -/
def setOnce {α : Type} (old : Option α) (value : Except Usage α) : Except Usage (Option α) :=
  if old.isSome then .error .repeatedOption else value.map some

def Draft.set (d : Draft) (setting : Setting) (value : String) : Except Usage Draft :=
  match setting with
  | .resultType => do
    let r ← setOnce d.resultType ((ResultType.parse value).mapError fun _ => .unreadableValue)
    return { d with resultType := r }
  | .wrap => do
    let w ← setOnce d.wrap ((Wrap.parse value).mapError fun _ => .unreadableValue)
    return { d with wrap := w }
  | .format => do
    let f ← setOnce d.format (((format? value).map .ok).getD (.error .invalidValue))
    return { d with format := f }

/-- Checks the value that is not checked yet. -/
def Draft.settle (d : Draft) : Except Usage Draft :=
  match d.pending with
  | none => .ok d
  | some (_, none) => .error .invalidValue
  | some (setting, some value) => ({ d with pending := none } : Draft).set setting value

def Draft.flag (d : Draft) (flag : Flag) : Except Usage Draft := do
  let d ← d.settle
  match flag with
  | .setting setting => return { d with pending := some (setting, none) }
  | .flatten => if d.flatten then throw .repeatedOption else return { d with flatten := true }
  | .noStandard =>
    if d.noStandard then throw .repeatedOption else return { d with noStandard := true }
  | .verbose => return { d with verbosity := d.verbosity + 1 }
  | .help => throw .help

/-- Cuts a word at its first equals sign. -/
def cutValue (word : List Char) : String × Option String :=
  match word.dropWhile (· ≠ '=') with
  | _ :: value => (String.ofList (word.takeWhile (· ≠ '=')), some (String.ofList value))
  | [] => (String.ofList word, none)

/-- Takes a word after two dashes. -/
def Draft.long (verb : Verb) (d : Draft) (word : List Char) : Except Usage Draft :=
  let (name, value) := cutValue word
  match Flag.ofName? verb name, value with
  | none, _ => .error .unknownArgument
  | some flag, none => d.flag flag
  | some (.setting setting), some value => do (← d.settle).set setting value
  | some _, some _ => .error .surplusValue

/-- Takes the letters after one dash. -/
def Draft.short (d : Draft) : List Char → Except Usage Draft
  | [] => .ok d
  | 'v' :: rest => do (← d.flag .verbose).short rest
  | 'h' :: _ => d.flag .help
  | _ => .error .unknownArgument

/-- How many positional words a command takes. -/
def Verb.arity : Verb → Nat
  | .query => 2
  | _ => 1

def Draft.positional (verb : Verb) (d : Draft) (word : String) : Except Usage Draft :=
  if d.positionals.length < verb.arity then do
    let d ← d.settle
    return { d with positionals := d.positionals ++ [word] }
  else .error .unknownArgument

/-- Takes a word. -/
def Draft.take (verb : Verb) (d : Draft) (word : String) : Except Usage Draft :=
  if d.positionalOnly then d.positional verb word
  else
    match word.toList, d.pending with
    | ['-', '-'], _ => .ok { d with positionalOnly := true }
    | '-' :: '-' :: rest, _ => d.long verb rest
    | '-' :: c :: rest, _ => d.short (c :: rest)
    | _, some (setting, none) => .ok { d with pending := some (setting, some word) }
    | _, _ => d.positional verb word

/-- The settings of a draft, defaults in the place of what was not given. -/
def Draft.settings (d : Draft) : CompileSettings :=
  ⟨d.resultType.getD .value, d.wrap.getD .auto, d.flatten, !d.noStandard⟩

def Draft.finish (verb : Verb) (d : Draft) : Except Usage Command := do
  let d ← d.settle
  match verb, d.positionals with
  | _, [] => throw .missingArgument
  | .query, expression :: files =>
    return .query expression files.head? d.settings (d.format.getD .json)
  | .explain, expression :: _ => return .explain expression d.settings (d.format.getD .text)
  | .normalize, expression :: _ => return .normalize expression (d.format.getD .text)

/-- Understands the words after the name of a command. -/
def parseVerb (verb : Verb) (verbosity : Nat) (words : List String) :
    Except Usage Invocation := do
  let d ← words.foldlM (Draft.take verb) Draft.empty
  let command ← d.finish verb
  return ⟨command, if d.verbosity = 0 then verbosity else d.verbosity⟩

/-- Understands the words after `help`: names of commands, each within the one before it. -/
def parseHelp : List String → Usage
  | [] => .help
  | [name] => if name = "help" || (Verb.ofName? name).isSome then .help else .unknownCommand
  | _ => .unknownCommand

/-- Takes the letters after one dash before the command: how often more reports were asked for. -/
def leadingShort (verbosity : Nat) : List Char → Except Usage Nat
  | [] => .ok verbosity
  | 'v' :: rest => leadingShort (verbosity + 1) rest
  | 'h' :: _ => .error .help
  | 'V' :: _ => .error .version
  | _ => .error .unknownArgument

/-- Takes a word after two dashes before the command. -/
def leadingLong (verbosity : Nat) (word : List Char) : Except Usage Nat :=
  match cutValue word with
  | ("verbose", none) => .ok (verbosity + 1)
  | ("help", none) => .error .help
  | ("version", none) => .error .version
  | ("verbose", some _) => .error .surplusValue
  | ("help", some _) => .error .surplusValue
  | ("version", some _) => .error .surplusValue
  | _ => .error .unknownArgument

/-- Understands the words of a command line, given what was understood before them. -/
def parseFrom (verbosity : Nat) : List String → Except Usage Invocation
  | [] => .error (if verbosity = 0 then .noCommand else .missingCommand)
  | word :: rest =>
    match word.toList with
    | ['-', '-'] =>
      match rest with
      | [] => .error (if verbosity = 0 then .noCommand else .missingCommand)
      | name :: _ =>
        if name = "help" || (Verb.ofName? name).isSome then .error .unknownArgument
        else .error .unknownCommand
    | '-' :: '-' :: long => do parseFrom (← leadingLong verbosity long) rest
    | '-' :: c :: short => do parseFrom (← leadingShort verbosity (c :: short)) rest
    | _ =>
      match Verb.ofName? word with
      | some verb => parseVerb verb verbosity rest
      | none => .error (if word = "help" then parseHelp rest else .unknownCommand)

end Arguments

def Invocation.parse (words : List String) : Except Usage Invocation :=
  Arguments.parseFrom 0 words

end TreePath
