/-
# Command — what the command line can be asked for

Three commands take a path: one describes the program that it compiles to, one lists the steps that it is
read into, and one runs it on a document.  They share the settings of a compilation.

`Invocation` is a command with the number of times that more reports were asked for.  The reports themselves
are for operators and change no result, so the number is only carried along.

How words become a command is in `Command/Arguments`, and what a command prints in `Command/Run`.
-/
import TreePath.Function.Standard
import TreePath.Options

namespace TreePath

/-- How a command presents its result. -/
inductive Format where
  | text
  | json
deriving DecidableEq, Inhabited, Repr

/-- The settings of a command that compiles an expression. -/
structure CompileSettings where
  resultType : ResultType
  wrap : Wrap
  flatten : Bool
  /-- Whether the standard functions are bound. -/
  standard : Bool
deriving DecidableEq, Inhabited

def CompileSettings.options (s : CompileSettings) : Options :=
  ⟨s.resultType, s.wrap, s.flatten, if s.standard then .standard 0 else .empty⟩

inductive Command where
  /-- The matches of an expression in a document, read from a file or from standard input. -/
  | query (expression : String) (file : Option String) (settings : CompileSettings)
      (format : Format)
  /-- The program of an expression. -/
  | explain (expression : String) (settings : CompileSettings) (format : Format)
  /-- The steps of an expression. -/
  | normalize (expression : String) (format : Format)
deriving DecidableEq, Inhabited

/-- A command with the number of times that more reports were asked for. -/
structure Invocation where
  command : Command
  verbosity : Nat
deriving DecidableEq, Inhabited

end TreePath
