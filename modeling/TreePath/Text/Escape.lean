/-
# Escape — backslash escapes inside quoted text

Names in paths and strings in scripts share the one-letter escapes (`control?`) and the escape by code point
(`codePoint?`); they differ in what they make of other characters after a backslash.

The letters stand for the line end, the tab and the other control characters that have a short form.

A code point that is none of a character, such as half of a surrogate pair, denotes nothing.  The text of the
code may have a plus sign in front and need not have four digits: whoever calls `codePoint?` decides how
many characters the code takes.
-/
import TreePath.Text.Digits

namespace TreePath.Text

/-- The control character that a letter after a backslash stands for. -/
def control? : Char → Option Char
  | 'n' => some '\n'
  | 't' => some '\t'
  | 'r' => some '\r'
  | 'b' => some '\x08'
  | 'f' => some '\x0c'
  | _ => none

def ofCodePoint? (n : Nat) : Option Char :=
  if n.isValidChar then some (Char.ofNat n) else none

/-- The character that the text after `\u` denotes: hexadecimal digits, which a plus sign may
precede. -/
def codePoint? (text : List Char) : Option Char :=
  let digits :=
    match text with
    | '+' :: digits => digits
    | digits => digits
  (ofHex? digits).bind ofCodePoint?

end TreePath.Text
