/-
# Subscript — the step that a bracket or a dotted member stands for

The content of a bracket is classified by its text, in this order, and the first that fits decides:

1. the wildcard;
2. a script, all of it in parentheses;
3. a filter, a question mark before parentheses;
4. a function, a plain name and `()`;
5. a sub-path, from the root on;
6. a list of keys between commas;
7. a slice, bounds between colons;
8. a single key.

Keys are quoted names or bare tokens.  A quoted name is decoded, and everything in it has to be inside its two
marks.  A bare token may not hold brackets, parentheses and colons.

A dotted member is the wildcard, a call or a bare token (`member`).  Where something is wrong the flaw has
the text that it is about; the position is that of the construct, and the scan adds it.
-/
import TreePath.Fault
import TreePath.Path.Quote
import TreePath.Path.Step
import TreePath.Text.Blank
import TreePath.Text.Escape

namespace TreePath.Subscript

/-- What a character after a backslash stands for, unless it begins a code point. -/
def escaped? (e : Char) : Option Char :=
  match Text.control? e with
  | some c => some c
  | none => if e = '\\' ∨ e = '\'' ∨ e = '"' ∨ e = '/' then some e else none

/-- Decodes the text between two quotation marks; `item` is the name with its marks. -/
def unescape (mark : Char) (item : List Char) : List Char → Except PathFlaw (List Char)
  | [] => .ok []
  | '\\' :: 'u' :: rest =>
    match Text.codePoint? (rest.take 4) with
    | some c => (unescape mark item (rest.drop 4)).map (c :: ·)
    | none => .error (.invalidEscape (String.ofList ('u' :: rest.take 4)))
  | ['\\'] => .error .danglingEscape
  | '\\' :: e :: rest =>
    match escaped? e with
    | some c => (unescape mark item rest).map (c :: ·)
    | none => .error (.invalidEscape (String.ofList [e]))
  | c :: rest =>
    if c = mark then .error (.malformedName (String.ofList item))
    else (unescape mark item rest).map (c :: ·)
termination_by text => text.length

def unquote (mark : Char) (item : List Char) : Except PathFlaw String :=
  match [mark].isSuffixOf? (item.drop 1) with
  | some inner => (unescape mark item inner).map String.ofList
  | none => .error (.malformedName (String.ofList item))

def key (item : List Char) : Except PathFlaw Key :=
  match item with
  | '\'' :: _ => (unquote '\'' item).map .name
  | '"' :: _ => (unquote '"' item).map .name
  | _ =>
    if item.any (· ∈ ['(', ')', '[', ']', ':']) then
      .error (.invalidSubscript (String.ofList item))
    else .ok (.ofBare (String.ofList item))

/-- The key that an item of a list denotes; only keys may stand in lists. -/
def listKey (item : List Char) : Except PathFlaw Key :=
  match item with
  | [] => .error .emptySubscript
  | ['*'] => .error .wildcardInList
  | item => key item

/-- A bound of the slice `content`: nothing, or a signed word. -/
def bound (content text : List Char) : Except PathFlaw (Option Int) :=
  if text.isEmpty then .ok none
  else
    let (negative, digits) :=
      match text with
      | '-' :: digits => (true, digits)
      | digits => (false, digits)
    if digits.isEmpty || !digits.all Char.isDigit then
      .error (.invalidSlice (String.ofList content))
    else
      let value : Int := if negative then -(Text.ofDigits digits : Int) else Text.ofDigits digits
      if Slice.minWord ≤ value ∧ value ≤ Slice.maxWord then .ok (some value)
      else .error (.sliceBound (String.ofList text))

def slice (content : List Char) : Except PathFlaw Slice :=
  let finish (start stop step : List Char) : Except PathFlaw Slice := do
    let s : Slice := ⟨← bound content start, ← bound content stop, ← bound content step⟩
    if s.step = some 0 then .error .zeroStep else .ok s
  match (content.splitOn ':').map Text.trim with
  | [start, stop] => finish start stop []
  | [start, stop, step] => finish start stop step
  | _ => .error (.invalidSlice (String.ofList content))

/-- The name in `name()`, if it may be a function step between brackets. -/
def call? (content : List Char) : Option (List Char) :=
  (['(', ')'].isSuffixOf? content).filter fun name =>
    !name.isEmpty && !name.any (· ∈ ['(', ')', '\'', '"', '.', '[', ']', '$'])

/-- Whether the content begins like a path from the root. -/
def isRooted : List Char → Bool
  | '$' :: '.' :: _ => true
  | '$' :: '[' :: _ => true
  | _ => false

/-- The step of a list, a slice or a single key. -/
def selector (content : List Char) : Except PathFlaw Step :=
  match Quote.splitOutside ',' .outside 0 content with
  | first :: second :: rest =>
    ((first :: second :: rest).mapM fun part => listKey (Text.trim part)).map .propertyList
  | _ =>
    match Quote.splitOutside ':' .outside 0 content with
    | _ :: _ :: _ => (slice content).map .slice
    | _ => (key content).map .property

/-- The step that the content of a bracket stands for; blanks at its ends are already gone. -/
def classify (content : List Char) : Except PathFlaw Step :=
  if content.isEmpty then .error .emptySubscript
  else if content = ['*'] then .ok .wildcard
  else
    match Quote.enclosed? content with
    | some body => .ok (.script (String.ofList (Text.trim body)))
    | none =>
      match (['?'].isPrefixOf? content).bind Quote.enclosed? with
      | some body => .ok (.filter (String.ofList (Text.trim body)))
      | none =>
        match call? content with
        | some name => .ok (.function (String.ofList (Text.trim name)))
        | none =>
          if isRooted content then .ok (.subPath (String.ofList content)) else selector content

def member (token : List Char) : Except PathFlaw Step :=
  if token.isEmpty then .error .emptyMember
  else if token = ['*'] then .ok .wildcard
  else
    match ['(', ')'].isSuffixOf? token with
    | some name =>
      if name.isEmpty || name.any (· ∈ ['(', ')']) then
        .error (.invalidCall (String.ofList token))
      else .ok (.function (String.ofList name))
    | none =>
      if token.any (· ∈ ['(', ')']) then .error (.unbalancedParentheses (String.ofList token))
      else .ok (.property (.ofBare (String.ofList token)))

end TreePath.Subscript
