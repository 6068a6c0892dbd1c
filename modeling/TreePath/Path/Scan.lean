/-
# Scan — from a path expression to its steps

The scan takes one character at a time.  Its state is the construct it is inside of and the steps that are
complete, so that a scan of a longer expression continues the scan of a shorter one.  The first flaw ends it,
and has a position, counted in characters.

* `.start` and `.root` are modes of their own, for a member may begin there without a dot.
* `.ready` is after a complete step: a separator has to follow.
* `.dot` and `.descent` are after one and two dots, where something has to follow.
* `.member` and `.bracket` collect characters.  A bracket knows the closers that are due and where it stands
  with respect to quoted text; only when the last closer comes is its content classified.

The two modes that collect keep the position where the construct began, and a bracket also where the last
quotation began: that is where a flaw lies which shows only later.

`Step.parse` is the entry: a blank expression is no path.
-/
import TreePath.Path.Subscript

namespace TreePath

namespace Scan

/-- A flaw and where it lies, counted in characters. -/
structure Failure where
  position : Nat
  flaw : PathFlaw
deriving DecidableEq

/-- The construct that the scan is inside of; collected characters are the last first. -/
inductive Mode where
  /-- Before the first character. -/
  | start
  /-- After the leading `$`. -/
  | root
  /-- After a complete step that needs a separator. -/
  | ready
  /-- After a dot. -/
  | dot
  /-- After two dots, the first of them at a position. -/
  | descent (first : Nat)
  /-- In a member that began at a position. -/
  | member (first : Nat) (token : List Char)
  /-- In a bracket that began at a position: the closers due, innermost first, and where the scan
  stands with respect to the quoted text that last began. -/
  | bracket (first : Nat) (closers : List Char) (quote : Quote) (quoteAt : Nat)
      (content : List Char)
deriving DecidableEq

/-- The state of a scan; steps are the last first. -/
structure State where
  position : Nat
  mode : Mode
  steps : List Step
deriving DecidableEq

def State.start : State :=
  ⟨0, .start, []⟩

def State.go (s : State) (mode : Mode) : State :=
  ⟨s.position + 1, mode, s.steps⟩

def State.push (s : State) (step : Step) : State :=
  { s with steps := step :: s.steps }

def State.fail (s : State) (flaw : PathFlaw) : Except Failure State :=
  .error ⟨s.position, flaw⟩

/-- Adds the step that a construct stands for, which is flawed at a position if at all. -/
def State.pushAt (s : State) (position : Nat) (step : Except PathFlaw Step) :
    Except Failure State :=
  match step with
  | .ok step => .ok (s.push step)
  | .error flaw => .error ⟨position, flaw⟩

/-- Takes a character after a complete step. -/
def State.separator (s : State) (c : Char) : Except Failure State :=
  match c with
  | '.' => .ok (s.go .dot)
  | '[' => .ok (s.go (.bracket s.position [']'] .outside s.position []))
  | '^' => .ok ((s.push .parent).go .ready)
  | ']' => s.fail (.unbalanced c)
  | ')' => s.fail (.unbalanced c)
  | c => s.fail (.unexpected c)

/-- Takes the first character of a member. -/
def State.beginMember (s : State) (c : Char) : Except Failure State :=
  if c = ']' then s.fail (.unbalanced c) else .ok (s.go (.member s.position [c]))

/-- Whether a character ends a member and begins the next construct. -/
def isSeparator (c : Char) : Bool :=
  c = '.' || c = '[' || c = '^'

/-- Takes a character inside a bracket. -/
def State.inBracket (s : State) (first : Nat) (closers : List Char) (quote : Quote)
    (quoteAt : Nat) (content : List Char) (c : Char) : Except Failure State :=
  let on (closers : List Char) (quote : Quote) (quoteAt : Nat) : Except Failure State :=
    .ok (s.go (.bracket first closers quote quoteAt (c :: content)))
  if quote ≠ .outside then on closers (quote.next c) quoteAt
  else if c = '[' then on (']' :: closers) quote quoteAt
  else if c = '(' then on (')' :: closers) quote quoteAt
  else if c = ']' ∨ c = ')' then
    if closers.head? ≠ some c then s.fail (.unbalanced c)
    else if closers.tail.isEmpty then
      (s.go .ready).pushAt (first + 1) (Subscript.classify (Text.trim content.reverse))
    else on closers.tail quote quoteAt
  else on closers (quote.next c) (if Quote.isMark c then s.position else quoteAt)

def State.step (s : State) (c : Char) : Except Failure State :=
  match s.mode with
  | .start =>
    if c = '$' then .ok ((s.push .root).go .root)
    else if isSeparator c then s.separator c
    else s.beginMember c
  | .root => if isSeparator c then s.separator c else s.beginMember c
  | .ready => s.separator c
  | .dot =>
    if c = '.' then .ok ((s.push .descent).go (.descent (s.position - 1)))
    else if isSeparator c then s.fail .emptyMember
    else s.beginMember c
  | .descent _ =>
    match c with
    | '.' => s.fail (.unexpected c)
    | '^' => s.fail .danglingDescent
    | '[' => s.separator c
    | c => s.beginMember c
  | .member first token =>
    if isSeparator c then
      (s.pushAt first (Subscript.member token.reverse)).bind fun s => s.separator c
    else if c = ']' then s.fail (.unbalanced c)
    else .ok (s.go (.member first (c :: token)))
  | .bracket first closers quote quoteAt content =>
    s.inBracket first closers quote quoteAt content c

/-- Ends the scan: the steps in order, unless a construct is incomplete. -/
def State.finish (s : State) : Except Failure (List Step) :=
  match s.mode with
  | .start => .ok s.steps.reverse
  | .root => .ok s.steps.reverse
  | .ready => .ok s.steps.reverse
  | .dot => .error ⟨s.position, .emptyMember⟩
  | .descent first => .error ⟨first, .danglingDescent⟩
  | .member first token =>
    (s.pushAt first (Subscript.member token.reverse)).map fun s => s.steps.reverse
  | .bracket first _ quote quoteAt _ =>
    if quote = .outside then .error ⟨first, .unclosedBracket⟩
    else .error ⟨quoteAt, .unterminatedString⟩

/-- The steps of an expression that is not blank. -/
def steps (expression : List Char) : Except Failure (List Step) :=
  (expression.foldlM State.step State.start).bind State.finish

end Scan

/-- Reads a path expression into its steps. -/
def Step.parse (expression : String) : Except Fault (List Step) :=
  let result : Except Scan.Failure (List Step) :=
    if expression.toList.all Text.isBlank then .error ⟨0, .blank⟩
    else Scan.steps expression.toList
  result.mapError fun failure => .path expression failure.position failure.flaw

end TreePath
