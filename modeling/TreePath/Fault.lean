/-
# Fault — the ways in which reading and evaluating a path can fail

A fault is its cause, with all the data that the cause has.  Its kind, message, snippet and display are
functions of the cause, so no two places of the library word the same message.

* `PathFlaw` is what is wrong with a path, and lies at a position that is counted in characters.
* `ScriptFlaw` is what is wrong with a script, by its grammar or when it is evaluated.
* A function may be missing, may not apply to values of a kind, or may fail with a message of its own.
* An option may not take a value.

Keys that find nothing, positions outside an array and slices of other values are no faults: they end the
branch that asked for them.

`display` is one line: the category, the message and the text that the fault lies in, if it lies in one.  The
flaw of a script is moreover kept as the cause of the fault (`cause?`), in the same words as the message.
-/
import TreePath.Json.Basic
import TreePath.Text.Digits

namespace TreePath

/-- What is wrong at a position of a path. -/
inductive PathFlaw where
  | blank
  | danglingDescent
  | unexpected (c : Char)
  | unbalanced (c : Char)
  | emptyMember
  | invalidCall (token : String)
  | unbalancedParentheses (token : String)
  | unclosedBracket
  | unterminatedString
  | emptySubscript
  | wildcardInList
  | invalidSubscript (item : String)
  | malformedName (item : String)
  | invalidEscape (text : String)
  | danglingEscape
  | invalidSlice (content : String)
  | sliceBound (text : String)
  | zeroStep
deriving DecidableEq

def PathFlaw.text : PathFlaw → String
  | .blank => "an input expression is required"
  | .danglingDescent => "`..` must be followed by a selector"
  | .unexpected c => "unexpected `" ++ c.toString ++ "`"
  | .unbalanced c => "unbalanced `" ++ c.toString ++ "`"
  | .emptyMember => "empty member name"
  | .invalidCall token => "invalid function call `" ++ token ++ "`"
  | .unbalancedParentheses token => "unbalanced parentheses in `" ++ token ++ "`"
  | .unclosedBracket => "unclosed `[`"
  | .unterminatedString => "unterminated string"
  | .emptySubscript => "empty subscript"
  | .wildcardInList => "wildcard inside a property list"
  | .invalidSubscript item => "invalid subscript `" ++ item ++ "`"
  | .malformedName item => "malformed quoted name `" ++ item ++ "`"
  | .invalidEscape text => "invalid escape `\\" ++ text ++ "`"
  | .danglingEscape => "dangling `\\`"
  | .invalidSlice content => "invalid slice `" ++ content ++ "`"
  | .sliceBound text => "slice bound out of range `" ++ text ++ "`"
  | .zeroStep => "slice step cannot be zero"

/-- What is wrong with a script, or with its use on a value. -/
inductive ScriptFlaw where
  /-- The text does not follow the grammar. -/
  | grammar
  /-- A `\u` escape that denotes no character. -/
  | invalidEscape (digits : String)
  /-- A property was read of `undefined` or `null`. -/
  | unreadable (property : String) (owner : String)
  /-- An array or object was used as a key. -/
  | notAKey
deriving DecidableEq

def ScriptFlaw.text : ScriptFlaw → String
  | .grammar => "parse error: <syntax>"
  | .invalidEscape digits => "parse error: invalid escape `\\u" ++ digits ++ "`"
  | .unreadable property owner =>
    "type error: cannot read property `" ++ property ++ "` of " ++ owner
  | .notAKey => "type error: script result is not a property name"

/-- The options whose values are checked. -/
inductive OptionName where
  | wrap
  | resultType
deriving DecidableEq

/-- The name of an option in messages. -/
def OptionName.text : OptionName → String
  | .wrap => "wrap"
  | .resultType => "result type"

/-- A failure with its cause. -/
inductive Fault where
  /-- The expression is malformed at a position, counted in characters. -/
  | path (expression : String) (position : Nat) (flaw : PathFlaw)
  /-- A script cannot be read or evaluated. -/
  | script (source : String) (flaw : ScriptFlaw)
  /-- A step names a function that is neither bound nor in the context. -/
  | unresolved (function : String)
  /-- A function does not apply to values of a kind. -/
  | inapplicable (function : String) (kind : Json.Kind)
  /-- A function failed with a message of its own. -/
  | raised (message : String)
  /-- An option does not take a value. -/
  | option (name : OptionName) (value : String)
deriving DecidableEq

namespace Fault

inductive Kind where
  | malformed
  | unresolvedFunction
  | evaluation
  | invalidOption
deriving DecidableEq, Repr

/-- The name of a category in displayed faults. -/
def Kind.text : Kind → String
  | .malformed => "syntax error"
  | .unresolvedFunction => "unresolved function"
  | .evaluation => "evaluation error"
  | .invalidOption => "invalid option"

def kind : Fault → Kind
  | .path _ _ _ => .malformed
  | .script _ _ => .evaluation
  | .unresolved _ => .unresolvedFunction
  | .inapplicable _ _ => .evaluation
  | .raised _ => .evaluation
  | .option _ _ => .invalidOption

def message : Fault → String
  | .path _ position flaw => flaw.text ++ " at position " ++ Text.decimal position
  | .script _ flaw => flaw.text
  | .unresolved function => "no function named `" ++ function ++ "`"
  | .inapplicable function kind => function ++ "() is not applicable to " ++ kind.name
  | .raised message => message
  | .option name value => "invalid option " ++ name.text ++ ": `" ++ value ++ "`"

/-- The text that the fault lies in. -/
def snippet? : Fault → Option String
  | .path expression _ _ => some expression
  | .script source _ => some source
  | .inapplicable function _ => some (function ++ "()")
  | _ => none

/-- The message of the fault that this one was caused by. -/
def cause? : Fault → Option String
  | .script _ flaw => some flaw.text
  | _ => none

/-- The fault on one line. -/
def display (fault : Fault) : String :=
  match fault.snippet? with
  | some snippet => fault.kind.text ++ ": " ++ fault.message ++ " in `" ++ snippet ++ "`"
  | none => fault.kind.text ++ ": " ++ fault.message

end Fault

end TreePath
