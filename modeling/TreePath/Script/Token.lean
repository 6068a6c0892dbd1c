/-
# Token — the lexemes of scripts

Blanks separate lexemes and are otherwise ignored.  Each lexeme is the longest one that the text begins with:
`===` before `==`, `@path` before `@`.

* A dot and the name after it are one lexeme, blanks between them not allowed.
* A keyword is a whole word: `nullable` is no `null` and no lexeme at all.
* A number has no sign.  A point belongs to it only if a digit follows, and an `e` only if an exponent does.
* A string keeps its escapes; it is cut off at the first mark of its kind that no backslash stands before.

What a minus sign means is left to the parser.
-/
import TreePath.Json.Numeral
import TreePath.Script.Expr

namespace TreePath

namespace Script

inductive Token where
  /-- A number, a keyword, or a string as it is written between its marks. -/
  | literal (literal : Literal)
  /-- `@` -/
  | value
  /-- `@path` -/
  | path
  /-- `.name` -/
  | member (name : String)
  /-- `!` -/
  | bang
  /-- An operator between operands; `-` also stands before one. -/
  | operator (op : BinaryOp)
  | openParen
  | closeParen
  | openBracket
  | closeBracket
deriving DecidableEq

def isGap (c : Char) : Bool :=
  c = ' ' || c = '\t' || c = '\r' || c = '\n'

def isNameStart (c : Char) : Bool :=
  c.isAlpha || c = '_' || c = '$'

def isNameChar (c : Char) : Bool :=
  c.isAlphanum || c = '_' || c = '$'

/-- The lexemes that are written with marks only; of two that begin alike the longer is first. -/
def symbols : List (List Char × Token) :=
  [(['=', '=', '='], .operator .strictEq), (['!', '=', '='], .operator .strictNe),
   (['=', '='], .operator .eq), (['!', '='], .operator .ne),
   (['|', '|'], .operator .or), (['&', '&'], .operator .and),
   (['<', '='], .operator .le), (['>', '='], .operator .ge),
   (['<'], .operator .lt), (['>'], .operator .gt),
   (['+'], .operator .add), (['-'], .operator .sub), (['*'], .operator .mul),
   (['/'], .operator .div), (['%'], .operator .rem), (['!'], .bang),
   (['('], .openParen), ([')'], .closeParen), (['['], .openBracket), ([']'], .closeBracket)]

def keywords : List (List Char × Literal) :=
  [(['t', 'r', 'u', 'e'], .bool true), (['f', 'a', 'l', 's', 'e'], .bool false),
   (['n', 'u', 'l', 'l'], .null),
   (['u', 'n', 'd', 'e', 'f', 'i', 'n', 'e', 'd'], .undefined)]

/-- The text up to a closing mark, and what follows the mark.  A backslash takes the next character
with it. -/
def takeString? (mark : Char) : List Char → Option (List Char × List Char)
  | [] => none
  | ['\\'] => none
  | '\\' :: c :: rest =>
    (takeString? mark rest).map fun (body, after) => ('\\' :: c :: body, after)
  | c :: rest =>
    if c = mark then some ([], rest)
    else (takeString? mark rest).map fun (body, after) => (c :: body, after)

/-- A point and the digits after it, if there are any. -/
def takeFraction (text : List Char) : Option (List Char) × List Char :=
  match text with
  | '.' :: rest =>
    if (rest.takeWhile Char.isDigit).isEmpty then (none, text)
    else (some (rest.takeWhile Char.isDigit), rest.dropWhile Char.isDigit)
  | _ => (none, text)

/-- An exponent, if there is one with digits. -/
def takeExponent (text : List Char) : Option Int × List Char :=
  match text with
  | [] => (none, [])
  | c :: rest =>
    if c = 'e' ∨ c = 'E' then
      let (negative, digits) := Numeral.readSign rest
      if (digits.takeWhile Char.isDigit).isEmpty then (none, text)
      else
        let value : Int := Text.ofDigits (digits.takeWhile Char.isDigit)
        (some (if negative then -value else value), digits.dropWhile Char.isDigit)
    else (none, text)

def takeNumber (text : List Char) : Binary64 × List Char :=
  let (fraction, rest) := takeFraction (text.dropWhile Char.isDigit)
  let (exponent, rest) := takeExponent rest
  let numeral : Numeral := ⟨text.takeWhile Char.isDigit, fraction, exponent⟩
  (numeral.toDecimal.toBinary64 false, rest)

/-- Whether the text goes on with a character of a name. -/
def continuesName (text : List Char) : Bool :=
  text.head?.any isNameChar

/-- `@path`, or `@` if a longer name or something else follows. -/
def takeBinding (rest : List Char) : Token × List Char :=
  match ['p', 'a', 't', 'h'].isPrefixOf? rest with
  | some after => if continuesName after then (.value, rest) else (.path, after)
  | none => (.value, rest)

/-- A keyword that is a whole word. -/
def takeKeyword? (text : List Char) : Option (Token × List Char) :=
  (keywords.lookup (text.takeWhile isNameChar)).map fun literal =>
    (.literal literal, text.dropWhile isNameChar)

/-- A lexeme that is written with marks only. -/
def takeSymbol? (text : List Char) : Option (Token × List Char) :=
  symbols.findSome? fun (spelling, token) => (spelling.isPrefixOf? text).map (token, ·)

/-- The name after a dot. -/
def takeMember? (rest : List Char) : Option (Token × List Char) :=
  if rest.head?.any isNameStart then
    some (.member (String.ofList (rest.takeWhile isNameChar)), rest.dropWhile isNameChar)
  else none

def takeQuoted? (mark : Char) (rest : List Char) : Option (Token × List Char) :=
  (takeString? mark rest).map fun (body, after) => (.literal (.string (String.ofList body)), after)

/-- The first lexeme of a text that begins with `c`, and what follows it. -/
def takeToken? (c : Char) (rest : List Char) : Option (Token × List Char) :=
  if c = '@' then some (takeBinding rest)
  else if c = '.' then takeMember? rest
  else if c = '"' ∨ c = '\'' then takeQuoted? c rest
  else if c.isDigit then
    let (number, after) := takeNumber (c :: rest)
    some (.literal (.number number), after)
  else if isNameStart c then takeKeyword? (c :: rest)
  else takeSymbol? (c :: rest)

end Script

end TreePath
