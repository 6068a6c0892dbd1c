/-
# Main — the program

The outer layer: it reads the command line and the document that the command asks for, runs the command and
prints the result.  Nothing is decided here but where texts go.

* The document comes from a file, or from standard input if no file is named.
* A result goes to standard output, followed by a line end unless there is nothing to print.
* A message goes to standard error.  A failed command exits with 1, and a command line that is not
  understood with 2.
-/
import TreePath.Command.Arguments
import TreePath.Command.Run

namespace TreePath

/-- The text of what is read from standard input. -/
partial def readAll (input : IO.FS.Stream) (text : String) : IO String := do
  let line ← input.getLine
  if line.isEmpty then return text else readAll input (text ++ line)

/-- The contents of a source, if it can be read. -/
def Source.read : Source → IO (Option String)
  | .standardInput => do
    let input ← IO.getStdin
    try return some (← readAll input "") catch _ => return none
  | .file path => do
    try return some (← IO.FS.readFile path) catch _ => return none

end TreePath

open TreePath

def main (words : List String) : IO UInt32 := do
  match Invocation.parse words with
  | .error .help => IO.println "usage: query EXPR [FILE] | explain EXPR | normalize EXPR"; return 0
  | .error .version => IO.println "0.3.0"; return 0
  | .error _ => IO.eprintln "wrong arguments"; return 2
  | .ok invocation =>
    let contents ←
      match invocation.command.source? with
      | some source => source.read
      | none => pure none
    match invocation.command.run false contents with
    | .ok result => IO.print (Command.printed result); return 0
    | .error failure => IO.eprintln failure.message; return 1
