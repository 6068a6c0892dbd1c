/-
# Script text — reading a script

A text is cut into lexemes, the lexemes are parsed, and then the strings of the expression are decoded, from
left to right.

A text that does not follow the grammar is refused before its strings are looked at; then the first string
with an escape that denotes no character is.  So of two flaws it is fixed which one is reported.

Strings are more lenient than names in paths: a backslash before a character that stands for no other one is
dropped.
-/
import TreePath.Fault
import TreePath.Script.Grammar
import TreePath.Text.Escape

namespace TreePath

namespace Script

/-- Decodes the text of a string.  A backslash before a character that stands for no other one is
dropped. -/
def unescape : List Char → Except ScriptFlaw (List Char)
  | [] => .ok []
  | '\\' :: 'u' :: rest =>
    match Text.codePoint? (rest.take 4) with
    | some c => (unescape (rest.drop 4)).map (c :: ·)
    | none => .error (.invalidEscape (String.ofList (rest.take 4)))
  | ['\\'] => .ok ['\\']
  | '\\' :: e :: rest => (unescape rest).map ((Text.control? e).getD e :: ·)
  | c :: rest => (unescape rest).map (c :: ·)
termination_by text => text.length

def unescapeExpr : Expr → Except ScriptFlaw Expr
  | .literal (.string text) =>
    (unescape text.toList).map fun decoded => .literal (.string (String.ofList decoded))
  | .literal l => .ok (.literal l)
  | .value => .ok .value
  | .path => .ok .path
  | .member target name => (unescapeExpr target).map (.member · name)
  | .index target position => do return .index (← unescapeExpr target) (← unescapeExpr position)
  | .unary op operand => (unescapeExpr operand).map (.unary op)
  | .binary op left right => do return .binary op (← unescapeExpr left) (← unescapeExpr right)

def parse (source : String) : Except ScriptFlaw Expr :=
  match (tokens? source.toList).bind ofTokens? with
  | none => .error .grammar
  | some e => unescapeExpr e

end Script

end TreePath
