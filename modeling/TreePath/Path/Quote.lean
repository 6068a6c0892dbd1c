/-
# Quote — where a scan stands with respect to quoted text

Text is quoted in single or double quotes, and a backslash inside takes the next character with it.  The
position is one of three, `outside`, `inside` and `escaped`, and `next` moves it by one character.

Everything that looks for brackets, parentheses or separators in a path follows this automaton and looks only
at characters outside: the scan of a path, `enclosed?` and `splitOutside`.

* `enclosed?` is the text between a parenthesis at the start and the one at the end, if they are partners.  It
  counts parentheses and passes over brackets.
* `splitOutside` counts both, as if each closed every other, and a closer where nothing is open changes
  nothing.  Inside a bracket of a path neither can be misled, since brackets have their partners there.
-/
namespace TreePath

inductive Quote where
  | outside
  | inside (mark : Char)
  | escaped (mark : Char)
deriving DecidableEq

namespace Quote

def isMark (c : Char) : Bool :=
  c = '\'' || c = '"'

/-- The position after `c`. -/
def next : Quote → Char → Quote
  | .outside, c => if isMark c then .inside c else .outside
  | .inside mark, c =>
    if c = '\\' then .escaped mark else if c = mark then .outside else .inside mark
  | .escaped mark, _ => .inside mark

/-- Whether every parenthesis outside quotes has its partner, `depth` of them being open before. -/
def closesParentheses (quote : Quote) (depth : Nat) : List Char → Bool
  | [] => depth = 0
  | c :: rest =>
    if quote = .outside then
      match c, depth with
      | '(', depth => closesParentheses .outside (depth + 1) rest
      | ')', 0 => false
      | ')', depth + 1 => closesParentheses .outside depth rest
      | c, depth => closesParentheses (Quote.outside.next c) depth rest
    else closesParentheses (quote.next c) depth rest

/-- The text between an opening parenthesis at the start and the one at the end, if the two are
partners. -/
def enclosed? (text : List Char) : Option (List Char) :=
  match text with
  | '(' :: rest =>
    ([')'].isSuffixOf? rest).filter fun body => closesParentheses .outside 0 body
  | _ => none

def consFirst (c : Char) : List (List Char) → List (List Char)
  | [] => [[c]]
  | part :: parts => (c :: part) :: parts

/-- Splits at a separator outside quotes, brackets and parentheses, `depth` of these being open. -/
def splitOutside (separator : Char) (quote : Quote) (depth : Nat) : List Char → List (List Char)
  | [] => [[]]
  | c :: rest =>
    if quote = .outside then
      if c = '(' ∨ c = '[' then consFirst c (splitOutside separator .outside (depth + 1) rest)
      else if c = ')' ∨ c = ']' then consFirst c (splitOutside separator .outside (depth - 1) rest)
      else if c = separator ∧ depth = 0 then [] :: splitOutside separator .outside 0 rest
      else consFirst c (splitOutside separator (Quote.outside.next c) depth rest)
    else consFirst c (splitOutside separator (quote.next c) depth rest)

end Quote

end TreePath
