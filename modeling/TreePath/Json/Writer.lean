/-
# Json writer — from a tree to text, compact or indented

* `write` has no blanks between lexemes; it is the text of a value wherever the library writes one on a line.
* `writePretty` has every item and member on a line of its own, two blanks deeper than its container.  An
  empty container stays on one line.

In strings, quotes, backslashes and control characters are escaped; everything else is written as it is.

Floats are the shortest decimals that read back (`Number.layout`): written out between 10⁻⁵ and 10¹⁶, with a
fraction also where they are whole, so that they are read as floats again.  A number without a value is
`null`, and none occurs in a proper tree.
-/
import TreePath.Json.Basic
import TreePath.Binary64.Layout

namespace TreePath

/-- The layout of floats in documents: `0.00001` and `1000000000000000.0` are written out, `1e-6` and
`1e+16` are not. -/
def Number.layout : Layout where
  tie := .even
  positional place := -4 ≤ place && place ≤ 16
  keepsFraction := true

/-- The text of a number; numbers without a value are null. -/
def Number.write : Number → String
  | .integer n => Text.signedDecimal n
  | .float (.finite negative rank) => Number.layout.write negative rank
  | .float _ => "null"

namespace Json

/-- One character inside a string. -/
def escape (c : Char) : List Char :=
  match c with
  | '"' => ['\\', '"']
  | '\\' => ['\\', '\\']
  | '\x08' => ['\\', 'b']
  | '\x0c' => ['\\', 'f']
  | '\n' => ['\\', 'n']
  | '\r' => ['\\', 'r']
  | '\t' => ['\\', 't']
  | c =>
    if c.toNat < 0x10 then ['\\', 'u', '0', '0', '0'] ++ Text.hex c.toNat
    else if c.toNat < 0x20 then ['\\', 'u', '0', '0'] ++ Text.hex c.toNat
    else [c]

/-- A string in quotes. -/
def writeString (text : String) : String :=
  "\"" ++ String.ofList (text.toList.flatMap escape) ++ "\""

mutual

def write : Json → String
  | .null => "null"
  | .bool b => if b then "true" else "false"
  | .num n => n.write
  | .str s => writeString s
  | .arr items => "[" ++ ",".intercalate (writeItems items) ++ "]"
  | .obj members => "\x7b" ++ ",".intercalate (writeMembers members) ++ "\x7d"

def writeItems : List Json → List String
  | [] => []
  | item :: rest => write item :: writeItems rest

def writeMembers : List (String × Json) → List String
  | [] => []
  | (name, value) :: rest => (writeString name ++ ":" ++ write value) :: writeMembers rest

end

/-- The parts of a container on lines of their own. -/
def writeBlock (opening closing indent : String) (parts : List String) : String :=
  if parts.isEmpty then opening ++ closing
  else
    let inner := "\n" ++ indent ++ "  "
    opening ++ inner ++ ("," ++ inner).intercalate parts ++ "\n" ++ indent ++ closing

mutual

/-- The text with every item and member on a line of its own, two blanks deeper than its container. -/
def writePretty (indent : String) : Json → String
  | .null => "null"
  | .bool b => if b then "true" else "false"
  | .num n => n.write
  | .str s => writeString s
  | .arr items => writeBlock "[" "]" indent (writePrettyItems (indent ++ "  ") items)
  | .obj members => writeBlock "\x7b" "\x7d" indent (writePrettyMembers (indent ++ "  ") members)

def writePrettyItems (indent : String) : List Json → List String
  | [] => []
  | item :: rest => writePretty indent item :: writePrettyItems indent rest

/-- The texts of members, indented. -/
def writePrettyMembers (indent : String) : List (String × Json) → List String
  | [] => []
  | (name, value) :: rest =>
    (writeString name ++ ": " ++ writePretty indent value) :: writePrettyMembers indent rest

end

end Json

end TreePath
