/-
# Options — how a path is compiled and how its matches are presented

* `ResultType` is what is presented of a match: its value or its path.
* `Wrap` is whether a lone match is presented in a sequence.  Left open, it is decided by the compiler: a
  path that can have several matches presents a sequence.
* Array values may be flattened into the sequence that they stand in.
* The functions that are bound when a path is compiled are a registry.

Settings are read from their names in any letter case, between blanks.  A word that is none is a fault
with the name of the option and the word as it was given.
-/
import TreePath.Function.Registry
import TreePath.Text.Blank

namespace TreePath

inductive ResultType where
  | value
  | path
deriving DecidableEq, Inhabited, Repr

/-- Whether a lone match is presented in a sequence. -/
inductive Wrap where
  | always
  | never
  /-- In a sequence if the path can branch. -/
  | auto
deriving DecidableEq, Inhabited, Repr

/-- The text of an option, without blanks at its ends and in lower case. -/
def optionWord (text : String) : String :=
  String.ofList ((Text.trim text.toList).map Char.toLower)

namespace ResultType

def text : ResultType → String
  | .value => "value"
  | .path => "path"

def parse (text : String) : Except Fault ResultType :=
  match optionWord text with
  | "value" => .ok .value
  | "path" => .ok .path
  | _ => .error (.option .resultType text)

end ResultType

namespace Wrap

def text : Wrap → String
  | .always => "true"
  | .never => "false"
  | .auto => "auto"

def parse (text : String) : Except Fault Wrap :=
  match optionWord text with
  | "true" => .ok .always
  | "yes" => .ok .always
  | "1" => .ok .always
  | "false" => .ok .never
  | "no" => .ok .never
  | "0" => .ok .never
  | "auto" => .ok .auto
  | _ => .error (.option .wrap text)

/-- The setting for a plain choice. -/
def ofBool (wrap : Bool) : Wrap :=
  if wrap then .always else .never

/-- Whether a lone match is wrapped; a setting that was left open does not wrap. -/
def enabled (wrap : Wrap) : Bool :=
  wrap = .always

end Wrap

structure Options where
  resultType : ResultType
  wrap : Wrap
  /-- Whether array matches give their items. -/
  flatten : Bool
  functions : Registry
deriving Inhabited

/-- The options that hold when none are given. -/
def Options.default : Options :=
  ⟨.value, .auto, false, .empty⟩

end TreePath
