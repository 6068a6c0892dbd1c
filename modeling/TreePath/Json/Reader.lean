/-
# Json reader — from text to a tree

The reader takes one character at a time.  Its state is the lexeme it is inside of, the containers that are
open, innermost first, and what must come next.  So the reader is a fold over the text, nesting needs no
recursion, and every text is read to an end.

* A container may be opened only while fewer than `limit` are open.
* Strings have the escapes of documents; a code point beyond the first plane is two escapes, and a lone half
  of such a pair fails.
* Numbers are collected up to the first character that no numeral holds, and read by `Number.read?`.
* A name that occurs twice in an object keeps its first place and takes its last value.

Reading fails on a text that is not one value between blanks, and on a number without a finite value.  All
failures are alike: what a document that is not read leads to is one message.
-/
import TreePath.Json.Numeral

namespace TreePath.Json.Reader

/-- The lexeme being read; collected characters are the last first. -/
inductive Lexeme where
  /-- Between lexemes. -/
  | gap
  /-- A word of letters. -/
  | word (letters : List Char)
  /-- A number. -/
  | number (characters : List Char)
  /-- A string. -/
  | text (characters : List Char)
  /-- A string, after a backslash. -/
  | escape (characters : List Char)
  /-- A string, among the four digits of an escape, after the first half of a pair if there is one. -/
  | unicode (characters : List Char) (high : Option Nat) (digits : List Char)
  /-- A string, after the first half of a surrogate pair. -/
  | pair (characters : List Char) (high : Nat)
  /-- A string, after the first half of a surrogate pair and a backslash. -/
  | pairEscape (characters : List Char) (high : Nat)

/-- An open container with what was read of it; items are the last first. -/
inductive Container where
  | array (items : List Json)
  | object (members : List (String × Json)) (name : String)

/-- What may come next, blanks apart. -/
inductive Expectation where
  | value
  | valueOrClose
  | name (members : List (String × Json))
  | nameOrClose
  | colon (members : List (String × Json)) (name : String)
  | separator
  | nothing (result : Json)

/-- The state of the reader. -/
structure State where
  lexeme : Lexeme
  stack : List Container
  next : Expectation

def State.start : State :=
  ⟨.gap, [], .value⟩

/-- Puts a finished value where it belongs. -/
def State.finishValue (value : Json) : List Container → State
  | [] => ⟨.gap, [], .nothing value⟩
  | .array items :: stack => ⟨.gap, .array (value :: items) :: stack, .separator⟩
  | .object members name :: stack =>
    ⟨.gap, .object (setMember name value members) name :: stack, .separator⟩

/-- Takes a value that is not a container. -/
def State.scalar (s : State) (value : Json) : Option State :=
  match s.next with
  | .value => some (State.finishValue value s.stack)
  | .valueOrClose => some (State.finishValue value s.stack)
  | _ => none

def State.string (s : State) (text : String) : Option State :=
  match s.next with
  | .name members => some ⟨.gap, s.stack, .colon members text⟩
  | .nameOrClose => some ⟨.gap, s.stack, .colon [] text⟩
  | _ => s.scalar (.str text)

/-- The value of a word. -/
def word? : String → Option Json
  | "null" => some .null
  | "true" => some (.bool true)
  | "false" => some (.bool false)
  | _ => none

/-- Ends the word or the number being read. -/
def State.flush (s : State) : Option State :=
  match s.lexeme with
  | .gap => some s
  | .word letters => (word? (String.ofList letters.reverse)).bind s.scalar
  | .number characters => (Number.read? characters.reverse).bind fun n => s.scalar (.num n)
  | _ => none

/-- Takes a character that is not part of a string, a word or a number. -/
def State.punctuation (limit : Nat) (s : State) (c : Char) : Option State :=
  match c, s.next, s.stack with
  | '[', .value, stack => open? (.array []) stack .valueOrClose
  | '[', .valueOrClose, stack => open? (.array []) stack .valueOrClose
  | '{', .value, stack => open? (.object [] "") stack .nameOrClose
  | '{', .valueOrClose, stack => open? (.object [] "") stack .nameOrClose
  | ']', .valueOrClose, .array _ :: stack => some (State.finishValue (.arr []) stack)
  | ']', .separator, .array items :: stack => some (State.finishValue (.arr items.reverse) stack)
  | '}', .nameOrClose, .object _ _ :: stack => some (State.finishValue (.obj []) stack)
  | '}', .separator, .object members _ :: stack => some (State.finishValue (.obj members) stack)
  | ',', .separator, .array items :: stack => some ⟨.gap, .array items :: stack, .value⟩
  | ',', .separator, .object members name :: stack =>
    some ⟨.gap, .object members name :: stack, .name members⟩
  | ':', .colon members name, _ :: stack => some ⟨.gap, .object members name :: stack, .value⟩
  | '"', next, stack => some ⟨.text [], stack, next⟩
  | _, _, _ => none
where
  open? (container : Container) (stack : List Container) (next : Expectation) : Option State :=
    if stack.length < limit then some ⟨.gap, container :: stack, next⟩ else none

def isGap (c : Char) : Bool :=
  c = ' ' || c = '\t' || c = '\n' || c = '\r'

/-- A character that a numeral may hold. -/
def isNumeric (c : Char) : Bool :=
  c.isDigit || c = '-' || c = '+' || c = '.' || c = 'e' || c = 'E'

def State.begin (limit : Nat) (s : State) (c : Char) : Option State :=
  if isGap c then some s
  else if c.isDigit || c = '-' then some { s with lexeme := .number [c] }
  else if c.isAlpha then some { s with lexeme := .word [c] }
  else s.punctuation limit c

/-- The character of a one-letter escape. -/
def escape? : Char → Option Char
  | '"' => some '"'
  | '\\' => some '\\'
  | '/' => some '/'
  | 'b' => some '\x08'
  | 'f' => some '\x0c'
  | 'n' => some '\n'
  | 'r' => some '\r'
  | 't' => some '\t'
  | _ => none

/-- What follows the four digits of an escape: a character, or the wait for the second half. -/
def unit? (characters : List Char) (high : Option Nat) (unit : Nat) : Option Lexeme :=
  match high with
  | none =>
    if 0xD800 ≤ unit ∧ unit < 0xDC00 then some (.pair characters unit)
    else if 0xDC00 ≤ unit ∧ unit < 0xE000 then none
    else some (.text (Char.ofNat unit :: characters))
  | some high =>
    if 0xDC00 ≤ unit ∧ unit < 0xE000 then
      some (.text (Char.ofNat (0x10000 + (high - 0xD800) * 0x400 + (unit - 0xDC00)) :: characters))
    else none

def State.step (limit : Nat) (s : State) (c : Char) : Option State :=
  match s.lexeme with
  | .gap => s.begin limit c
  | .word letters =>
    if c.isAlpha then some { s with lexeme := .word (c :: letters) }
    else s.flush.bind fun s => s.begin limit c
  | .number characters =>
    if isNumeric c then some { s with lexeme := .number (c :: characters) }
    else s.flush.bind fun s => s.begin limit c
  | .text characters =>
    if c = '"' then ({ s with lexeme := .gap } : State).string (String.ofList characters.reverse)
    else if c = '\\' then some { s with lexeme := .escape characters }
    else if c.toNat < 0x20 then none
    else some { s with lexeme := .text (c :: characters) }
  | .escape characters =>
    if c = 'u' then some { s with lexeme := .unicode characters none [] }
    else (escape? c).map fun e => { s with lexeme := .text (e :: characters) }
  | .unicode characters high digits =>
    match digits with
    | [d₃, d₂, d₁] =>
      (Text.ofHex? [d₁, d₂, d₃, c]).bind fun unit =>
        (unit? characters high unit).map fun lexeme => { s with lexeme }
    | _ => some { s with lexeme := .unicode characters high (c :: digits) }
  | .pair characters high =>
    if c = '\\' then some { s with lexeme := .pairEscape characters high } else none
  | .pairEscape characters high =>
    if c = 'u' then some { s with lexeme := .unicode characters (some high) [] } else none

/-- The result, if one value was read. -/
def State.finish (s : State) : Option Json :=
  s.flush.bind fun s =>
    match s.next with
    | .nothing result => some result
    | _ => none

end TreePath.Json.Reader

namespace TreePath.Json

/-- Reads a text that holds one value with at most `limit` nested containers. -/
def read? (limit : Nat) (text : String) : Option Json :=
  (text.toList.foldlM (Reader.State.step limit) Reader.State.start).bind Reader.State.finish

end TreePath.Json
