/-
# Derivations — the grammar of scripts, level by level

Scripts have eight levels of expressions.  Six are those of the operators between operands, from the
disjunction to the products; the seventh has the operators before an operand, and the eighth members and
subscripts, literals, bindings and parentheses.  An expression at a level is one at the next level, or
an operator of the level with its operands.  The left operand may be of the same level, so operators of
one level group to the left.

    Derives level tokens e

says that the lexemes `tokens` are the expression `e` at `level`.  The relation knows of no parser.

## The parser and the grammar

`ofTokens?` keeps a stack of constructs that wait for an operand, and never looks at levels as such.
`ofTokens?_eq_some_iff` says that it finds exactly the derivations of a whole expression.

* From a derivation to the parse: `ReadsAs` says what the parser makes of the lexemes where an operand of
  the level is due.  The operand is complete, or the operators that are still open inside of it close into
  it before any operator that binds less tightly is taken (`Taken`).
* From the parse to a derivation: `Consumed` says what the lexemes are that brought the parser into a
  state.  The stack has to be in order (`Opened`): below an operator between operands stands no operator
  that binds as tightly.  Then whatever `close` closes is a derivation.
-/
import TreePath.Script.Grammar

namespace TreePath

namespace Script

/-! ## Levels -/

/-- How tightly an operator between operands binds: disjunction, conjunction, equality, comparison,
sums, products. -/
def binaryLevel : BinaryOp → Nat
  | .or => 1
  | .and => 2
  | .eq | .ne | .strictEq | .strictNe => 3
  | .lt | .le | .gt | .ge => 4
  | .add | .sub => 5
  | .mul | .div | .rem => 6

def unaryLevel : Nat := 7

def postfixLevel : Nat := 8

theorem binaryLevel_eq (op : BinaryOp) : binaryLevel op = op.precedence := by
  cases op <;> rfl

theorem precedence_lt_unaryLevel (op : BinaryOp) : op.precedence < unaryLevel := by
  cases op <;> decide

theorem precedence_pos (op : BinaryOp) : 1 ≤ op.precedence := by
  cases op <;> decide

/-! ## The grammar -/

def unaryToken : UnaryOp → Token
  | .not => .bang
  | .neg => .operator .sub

/-- Lexemes that are an expression at a level. -/
inductive Derives : Nat → List Token → Expr → Prop
  | literal (l : Literal) : Derives postfixLevel [.literal l] (.literal l)
  | value : Derives postfixLevel [.value] .value
  | path : Derives postfixLevel [.path] .path
  | enclosed {tokens : List Token} {e : Expr} : Derives 1 tokens e →
      Derives postfixLevel (.openParen :: (tokens ++ [.closeParen])) e
  | member {tokens : List Token} {target : Expr} (name : String) :
      Derives postfixLevel tokens target →
      Derives postfixLevel (tokens ++ [.member name]) (.member target name)
  | index {tokens inner : List Token} {target position : Expr} : Derives postfixLevel tokens target →
      Derives 1 inner position →
      Derives postfixLevel (tokens ++ .openBracket :: (inner ++ [.closeBracket]))
        (.index target position)
  | unary (op : UnaryOp) {tokens : List Token} {operand : Expr} : Derives unaryLevel tokens operand →
      Derives unaryLevel (unaryToken op :: tokens) (.unary op operand)
  | binary (op : BinaryOp) {tokens tokens' : List Token} {left right : Expr} :
      Derives (binaryLevel op) tokens left → Derives (binaryLevel op + 1) tokens' right →
      Derives (binaryLevel op) (tokens ++ .operator op :: tokens') (.binary op left right)
  | tighter {level : Nat} {tokens : List Token} {e : Expr} : Derives (level + 1) tokens e →
      Derives level tokens e

theorem Derives.mono {level : Nat} {tokens : List Token} {e : Expr} (h : Derives level tokens e)
    {asked : Nat} (le : asked ≤ level) : Derives asked tokens e := by
  obtain ⟨steps, rfl⟩ := Nat.exists_eq_add_of_le le
  induction steps with
  | zero => exact h
  | succ steps ih => exact ih h.tighter (Nat.le_add_right _ _)

/-! ## What the parser makes of a derivation -/

def Reads (s : Parse) (tokens : List Token) (s' : Parse) : Prop :=
  tokens.foldlM Parse.step s = some s'

theorem Reads.nil (s : Parse) : Reads s [] s :=
  rfl

theorem Reads.cons {s mid s' : Parse} {token : Token} {rest : List Token}
    (first : s.step token = some mid) (others : Reads mid rest s') :
    Reads s (token :: rest) s' := by
  rw [Reads, List.foldlM_cons, first]
  exact others

theorem Reads.append {s mid s' : Parse} {a b : List Token} (ha : Reads s a mid)
    (hb : Reads mid b s') : Reads s (a ++ b) s' := by
  rw [Reads, List.foldlM_append, ha]
  exact hb

/-- No operator that is open before an operand at this level binds as tightly. -/
def Ready (level : Nat) : List Pending → Prop
  | .unary _ :: _ => unaryLevel ≤ level
  | .binary _ op :: _ => op.precedence < level
  | _ => True

theorem Ready.mono {asked level : Nat} (le : asked ≤ level) {pending : List Pending}
    (h : Ready asked pending) : Ready level pending := by
  cases pending with
  | nil => trivial
  | cons first others =>
      cases first with
      | paren => trivial
      | subscript target => trivial
      | unary op => exact Nat.le_trans h le
      | binary left op => exact Nat.lt_of_lt_of_le h le

theorem Ready.close {op : BinaryOp} {pending : List Pending} (h : Ready op.precedence pending)
    (e : Expr) : Script.close op.precedence e pending = (e, pending) := by
  cases pending with
  | nil => rfl
  | cons first others =>
      cases first with
      | paren => rfl
      | subscript target => rfl
      | unary _ => exact absurd h (Nat.not_le_of_lt (precedence_lt_unaryLevel op))
      | binary left op' =>
          rw [Script.close, if_neg (Nat.not_le_of_lt h)]

/-- The parser has taken an operand `e` at a level: it is complete, or the operators that are open
inside it close into it before any operator that binds less tightly is taken. -/
inductive Taken (level : Nat) (e : Expr) (pending : List Pending) : Parse → Prop
  | complete : Taken level e pending ⟨pending, some e⟩
  | closing {e' : Expr} {pending' : List Pending} : level < postfixLevel →
      (∀ p ≤ level, close p e' pending' = close p e pending) →
      Taken level e pending ⟨pending', some e'⟩

theorem Taken.close {level : Nat} {e : Expr} {pending : List Pending} {s : Parse}
    (h : Taken level e pending s) :
    ∃ e', s.operand = some e' ∧ ∀ p ≤ level, close p e' s.pending = close p e pending := by
  cases h with
  | complete => exact ⟨e, rfl, fun _ _ => rfl⟩
  | closing _ closes => exact ⟨_, rfl, closes⟩

theorem Taken.eq_complete {e : Expr} {pending : List Pending} {s : Parse}
    (h : Taken postfixLevel e pending s) : s = ⟨pending, some e⟩ := by
  cases h with
  | complete => rfl
  | closing lt _ => exact absurd lt (Nat.lt_irrefl _)

theorem Taken.mono {asked level : Nat} (le : asked ≤ level) {e : Expr} {pending : List Pending}
    {s : Parse} (h : Taken level e pending s) : Taken asked e pending s := by
  cases h with
  | complete => exact .complete
  | closing lt closes =>
      exact .closing (Nat.lt_of_le_of_lt le lt) fun p bound => closes p (Nat.le_trans bound le)

/-- Where an operand at the level is due, the parser takes the lexemes as that operand. -/
def ReadsAs (level : Nat) (tokens : List Token) (e : Expr) : Prop :=
  ∀ pending, Ready level pending →
    ∃ s, Reads ⟨pending, none⟩ tokens s ∧ Taken level e pending s

namespace ReadsAs

theorem single {token : Token} {e : Expr}
    (begins : ∀ pending, Parse.begin pending token = some ⟨pending, some e⟩) :
    ReadsAs postfixLevel [token] e := by
  intro pending _
  exact ⟨_, .cons (begins pending) (.nil _), .complete⟩

theorem mono {level : Nat} {tokens : List Token} {e : Expr} (h : ReadsAs level tokens e)
    {asked : Nat} (le : asked ≤ level) : ReadsAs asked tokens e := by
  intro pending ready
  obtain ⟨s, reads, taken⟩ := h pending (ready.mono le)
  exact ⟨s, reads, taken.mono le⟩

theorem enclosed {level : Nat} {tokens : List Token} {e : Expr} (h : ReadsAs level tokens e) :
    ReadsAs postfixLevel (.openParen :: (tokens ++ [.closeParen])) e := by
  intro pending _
  obtain ⟨s, reads, taken⟩ := h (.paren :: pending) trivial
  obtain ⟨e', operand, closes⟩ := taken.close
  have last : s.step .closeParen = some ⟨pending, some e⟩ := by
    rw [Parse.step, operand]
    dsimp only
    rw [Parse.continue, closes 0 (Nat.zero_le level)]
    rfl
  exact ⟨_, .cons rfl (reads.append (.cons last (.nil _))), .complete⟩

section Postfix

variable {tokens : List Token} {target : Expr}

theorem member (h : ReadsAs postfixLevel tokens target) (name : String) :
    ReadsAs postfixLevel (tokens ++ [.member name]) (.member target name) := by
  intro pending ready
  obtain ⟨s, reads, taken⟩ := h pending ready
  cases taken.eq_complete
  exact ⟨_, reads.append (.cons rfl (.nil _)), .complete⟩

theorem index (h : ReadsAs postfixLevel tokens target) {level : Nat} {inner : List Token}
    {position : Expr} (h' : ReadsAs level inner position) :
    ReadsAs postfixLevel (tokens ++ .openBracket :: (inner ++ [.closeBracket]))
      (.index target position) := by
  intro pending ready
  obtain ⟨s, reads, taken⟩ := h pending ready
  cases taken.eq_complete
  obtain ⟨s, reads', taken'⟩ := h' (.subscript target :: pending) trivial
  obtain ⟨e', operand, closes⟩ := taken'.close
  have last : s.step .closeBracket = some ⟨pending, some (.index target position)⟩ := by
    rw [Parse.step, operand]
    dsimp only
    rw [Parse.continue, closes 0 (Nat.zero_le level)]
    rfl
  exact ⟨_, reads.append (.cons rfl (reads'.append (.cons last (.nil _)))), .complete⟩

end Postfix

theorem unary {tokens : List Token} {operand : Expr} (h : ReadsAs unaryLevel tokens operand)
    (op : UnaryOp) : ReadsAs unaryLevel (unaryToken op :: tokens) (.unary op operand) := by
  intro pending _
  have first : Parse.step ⟨pending, none⟩ (unaryToken op) = some ⟨.unary op :: pending, none⟩ := by
    cases op <;> rfl
  obtain ⟨s, reads, taken⟩ := h (.unary op :: pending) (Nat.le_refl _)
  obtain ⟨e', eq, closes⟩ := taken.close
  obtain ⟨pending', _⟩ := s
  cases eq
  exact ⟨_, .cons first reads, .closing (by decide) closes⟩

/-- Operators of one precedence group to the left: the right operand has to bind more tightly. -/
theorem binary {op : BinaryOp} {tokens tokens' : List Token} {left right : Expr}
    (h : ReadsAs op.precedence tokens left) (h' : ReadsAs (op.precedence + 1) tokens' right) :
    ReadsAs op.precedence (tokens ++ .operator op :: tokens') (.binary op left right) := by
  intro pending ready
  obtain ⟨s, reads, taken⟩ := h pending ready
  obtain ⟨left', operand, closes⟩ := taken.close
  have middle : s.step (.operator op) = some ⟨.binary left op :: pending, none⟩ := by
    rw [Parse.step, operand]
    dsimp only
    rw [Parse.continue, closes _ (Nat.le_refl _), ready.close]
  obtain ⟨s', reads', taken'⟩ := h' (.binary left op :: pending) (Nat.lt_succ_self _)
  obtain ⟨right', eq, closes'⟩ := taken'.close
  obtain ⟨pending', _⟩ := s'
  cases eq
  have below : op.precedence < postfixLevel :=
    Nat.lt_trans (precedence_lt_unaryLevel op) (by decide)
  -- the operator stays open: what closes the right operand closes it too, if it binds no more tightly
  refine ⟨_, reads.append (.cons middle reads'), .closing below ?_⟩
  intro p le
  rw [closes' p (Nat.le_succ_of_le le)]
  exact if_pos le

end ReadsAs

theorem Derives.readsAs {level : Nat} {tokens : List Token} {e : Expr}
    (h : Derives level tokens e) : ReadsAs level tokens e := by
  induction h with
  | literal l => exact .single fun _ => rfl
  | value => exact .single fun _ => rfl
  | path => exact .single fun _ => rfl
  | enclosed _ ih => exact ih.enclosed
  | member name _ ih => exact ih.member name
  | index _ _ ih ih' => exact ih.index ih'
  | unary op _ ih => exact ih.unary op
  | binary op _ _ ih ih' =>
      rw [binaryLevel_eq] at ih ih' ⊢
      exact ih.binary ih'
  | tighter _ ih => exact ih.mono (Nat.le_succ _)

theorem Derives.ofTokens? {level : Nat} {tokens : List Token} {e : Expr}
    (h : Derives level tokens e) : ofTokens? tokens = some e := by
  obtain ⟨s, reads, taken⟩ := h.readsAs [] trivial
  obtain ⟨e', operand, closes⟩ := taken.close
  have finish : s.finish = some e := by
    rw [Parse.finish, operand]
    dsimp only
    rw [closes 0 (Nat.zero_le _)]
    rfl
  rw [Script.ofTokens?, reads]
  exact finish

/-! ## What the parser has consumed -/

/-- The constructs wait for an operand after these lexemes. -/
inductive Opened : List Pending → List Token → Prop
  | nil : Opened [] []
  | paren {pending : List Pending} {tokens : List Token} : Opened pending tokens →
      Opened (.paren :: pending) (tokens ++ [.openParen])
  | subscript {pending : List Pending} {tokens inner : List Token} {target : Expr} :
      Opened pending tokens → Derives postfixLevel inner target →
      Opened (.subscript target :: pending) (tokens ++ (inner ++ [.openBracket]))
  | unary (op : UnaryOp) {pending : List Pending} {tokens : List Token} : Opened pending tokens →
      Opened (.unary op :: pending) (tokens ++ [unaryToken op])
  | binary {op : BinaryOp} {pending : List Pending} {tokens inner : List Token} {left : Expr} :
      Opened pending tokens → Ready op.precedence pending → Derives op.precedence inner left →
      Opened (.binary left op :: pending) (tokens ++ (inner ++ [.operator op]))

/-- The level of the operand that is due. -/
def asked : List Pending → Nat
  | .unary _ :: _ => unaryLevel
  | .binary _ op :: _ => op.precedence + 1
  | _ => 1

theorem asked_le_unaryLevel (pending : List Pending) : asked pending ≤ unaryLevel := by
  cases pending with
  | nil => decide
  | cons first others =>
      cases first with
      | paren => exact (by decide : 1 ≤ unaryLevel)
      | subscript target => exact (by decide : 1 ≤ unaryLevel)
      | unary op => exact Nat.le_refl _
      | binary left op => exact precedence_lt_unaryLevel op

theorem Ready.asked_le {level : Nat} {pending : List Pending} (h : Ready level pending)
    (positive : 1 ≤ level) : asked pending ≤ level := by
  cases pending with
  | nil => exact positive
  | cons first others =>
      cases first with
      | paren => exact positive
      | subscript target => exact positive
      | unary op => exact h
      | binary left op => exact h

/-- The lexemes after those that opened a stack are an operand that ends what an operator at the level
closes. -/
def Closed (precedence : Nat) (tokens : List Token) : Expr × List Pending → Prop
  | (e, pending) => ∃ before inner, Opened pending before ∧ Ready precedence pending ∧
      Derives (max 1 precedence) inner e ∧ tokens = before ++ inner

/-- The operand and the operators that are closed around it are a derivation. -/
theorem Opened.close {pending : List Pending} {tokens : List Token} (h : Opened pending tokens)
    {level : Nat} {inner : List Token} {e : Expr} (operand : Derives level inner e)
    (fits : asked pending ≤ level) {precedence : Nat} (le : max 1 precedence ≤ level)
    (low : precedence ≤ unaryLevel) :
    Closed precedence (tokens ++ inner) (close precedence e pending) := by
  induction h generalizing level inner e with
  | nil => exact ⟨_, _, .nil, trivial, operand.mono le, rfl⟩
  | paren before _ => exact ⟨_, _, .paren before, trivial, operand.mono le, rfl⟩
  | subscript before target _ =>
      exact ⟨_, _, .subscript before target, trivial, operand.mono le, rfl⟩
  | unary op before ih =>
      have whole := (operand.mono fits).unary op
      rw [List.append_assoc]
      exact ih whole (asked_le_unaryLevel _) (Nat.max_le.mpr ⟨by decide, low⟩)
  | @binary op pending tokens left' left before ready leftDerives ih =>
      rw [Script.close]
      split
      · rename_i closes
        have right : Derives (op.precedence + 1) inner e := operand.mono fits
        rw [← binaryLevel_eq] at leftDerives right
        have whole := leftDerives.binary op right
        rw [binaryLevel_eq] at whole
        rw [List.append_assoc, List.append_assoc]
        exact ih whole (ready.asked_le (precedence_pos op))
          (Nat.max_le.mpr ⟨precedence_pos op, closes⟩)
      · rename_i stays
        exact ⟨_, _, .binary before ready leftDerives, Nat.lt_of_not_le stays, operand.mono le, rfl⟩

/-- The lexemes that brought the parser into a state. -/
inductive Consumed : Parse → List Token → Prop
  | awaiting {pending : List Pending} {tokens : List Token} : Opened pending tokens →
      Consumed ⟨pending, none⟩ tokens
  | complete {pending : List Pending} {tokens inner : List Token} {e : Expr} :
      Opened pending tokens → Derives postfixLevel inner e →
      Consumed ⟨pending, some e⟩ (tokens ++ inner)

theorem Opened.begin {pending : List Pending} {tokens : List Token} (h : Opened pending tokens)
    {token : Token} {s : Parse} (taken : Parse.begin pending token = some s) :
    Consumed s (tokens ++ [token]) := by
  cases token with
  | literal l => cases taken; exact .complete h (.literal l)
  | value => cases taken; exact .complete h .value
  | path => cases taken; exact .complete h .path
  | bang => cases taken; exact .awaiting (.unary .not h)
  | operator op =>
      cases op with
      | sub => cases taken; exact .awaiting (.unary .neg h)
      | _ => cases taken
  | openParen => cases taken; exact .awaiting h.paren
  | _ => cases taken

section

variable {pending : List Pending} {tokens inner : List Token} {e : Expr}

theorem Opened.close_zero (h : Opened pending tokens) (operand : Derives postfixLevel inner e) :
    Closed 0 (tokens ++ inner) (Script.close 0 e pending) :=
  h.close operand (Nat.le_succ_of_le (asked_le_unaryLevel _)) (by decide) (Nat.zero_le _)

theorem Opened.continue (h : Opened pending tokens) (operand : Derives postfixLevel inner e)
    {token : Token} {s : Parse} (taken : Parse.continue pending e token = some s) :
    Consumed s ((tokens ++ inner) ++ [token]) := by
  have closed := h.close_zero operand
  cases token with
  | member name =>
      cases taken
      rw [List.append_assoc]
      exact .complete h (operand.member name)
  | openBracket =>
      cases taken
      rw [List.append_assoc]
      exact .awaiting (h.subscript operand)
  | operator op =>
      have least := Nat.max_eq_right (precedence_pos op)
      have low := Nat.le_of_lt (precedence_lt_unaryLevel op)
      have bound : max 1 op.precedence ≤ postfixLevel := by
        rw [least]
        exact Nat.le_succ_of_le low
      have closed := h.close operand (Nat.le_succ_of_le (asked_le_unaryLevel _)) bound low
      rw [Parse.continue] at taken
      generalize Script.close op.precedence e pending = around at closed taken
      obtain ⟨left, rest⟩ := around
      cases taken
      obtain ⟨before, left', opened, ready, derives, eq⟩ := closed
      rw [least] at derives
      rw [eq, List.append_assoc]
      exact .awaiting (.binary opened ready derives)
  | closeParen =>
      rw [Parse.continue] at taken
      generalize Script.close 0 e pending = around at closed taken
      obtain ⟨whole, rest⟩ := around
      obtain ⟨before, inner', opened, -, derives, eq⟩ := closed
      cases opened with
      | @paren pending before opened =>
          cases taken
          rw [eq, List.append_assoc, List.append_assoc]
          exact .complete opened derives.enclosed
      | _ => cases taken
  | closeBracket =>
      rw [Parse.continue] at taken
      generalize Script.close 0 e pending = around at closed taken
      obtain ⟨whole, rest⟩ := around
      obtain ⟨before, inner', opened, -, derives, eq⟩ := closed
      cases opened with
      | @subscript pending before target' target opened targetDerives =>
          cases taken
          rw [eq, List.append_assoc, List.append_assoc, List.append_assoc]
          exact .complete opened (targetDerives.index derives)
      | _ => cases taken
  | _ => cases taken

end

theorem Consumed.step {s s' : Parse} {tokens : List Token} (h : Consumed s tokens) {token : Token}
    (taken : s.step token = some s') : Consumed s' (tokens ++ [token]) := by
  cases h with
  | awaiting opened => exact opened.begin taken
  | complete opened operand => exact opened.continue operand taken

theorem Consumed.reads {s s' : Parse} {tokens more : List Token} (h : Consumed s tokens)
    (reads : Reads s more s') : Consumed s' (tokens ++ more) := by
  induction more generalizing s tokens with
  | nil =>
      cases reads
      rwa [List.append_nil]
  | cons token rest ih =>
      rw [Reads, List.foldlM_cons] at reads
      obtain ⟨mid, first, others⟩ := Option.bind_eq_some_iff.mp reads
      rw [List.append_cons]
      exact ih (h.step first) others

/-- Parsing finds the derivations of a whole expression. -/
theorem ofTokens?_eq_some_iff {tokens : List Token} {e : Expr} :
    ofTokens? tokens = some e ↔ Derives 1 tokens e := by
  refine ⟨?_, Derives.ofTokens?⟩
  intro parsed
  obtain ⟨s, reads, finish⟩ := Option.bind_eq_some_iff.mp parsed
  have consumed : Consumed s tokens := (Consumed.awaiting .nil).reads reads
  cases consumed with
  | awaiting opened => cases finish
  | complete opened operand =>
      have closed := opened.close_zero operand
      rw [Parse.finish] at finish
      dsimp only at finish
      generalize Script.close 0 _ _ = around at closed finish
      obtain ⟨whole, rest⟩ := around
      obtain ⟨before, inner, opened, -, derives, eq⟩ := closed
      cases opened with
      | nil =>
          cases finish
          rw [eq]
          exact derives
      | _ => cases finish

end Script

end TreePath
