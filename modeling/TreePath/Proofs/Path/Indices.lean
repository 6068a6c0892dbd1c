/-
# Indices — the scan of a path by positions

The scan of `Path/Scan` takes one character at a time and keeps in its state what it is inside of.  A path
can also be read from its positions, with jumps:

* one loop goes from construct to construct, and looks at the next two characters to see what begins;
* a member runs on to the next separator;
* a bracket ends where its stack of closers is empty, and a quotation mark takes the search to the mark
  that ends the quoted text, past two characters at a backslash;
* what lies between two positions is cut out of the text.

Everything here is a function of the whole text and of a position, and ends since positions grow
(`lt_of_construct`).  `steps_eq_readSteps` says that the two scans are one function: same steps, same flaws,
same positions of the flaws.

## How the two are compared

At position `i` the one-character scan has `text.drop i` before it, and `resume` is what it makes of that.
There is one lemma for each loop, by the recursion of the loop: `resume_quoted` for quoted text,
`resume_bracket` for a bracket, `resume_member` for a member.  Each says that the scan from inside of the
construct is the loop, and then the scan from where the loop ends.  The text that the scan has collected is
always the text between the first position and the present one, in reverse (`between_succ`).

The scan is in mode `.dot` or `.descent` where the loop has looked ahead instead: `resume_dot` and
`resume_descent` are the comparisons there.
-/
import TreePath.Proofs.Path.Scanning
import TreePath.Proofs.Results

namespace TreePath

namespace Scan

namespace Indexed

variable {text : List Char} {i : Nat} {c : Char}

/-! ## Positions -/

/-- The text from one position up to another. -/
def between (text : List Char) (first last : Nat) : List Char :=
  (text.drop first).take (last - first)

theorem lt_length (found : text[i]? = some c) : i < text.length :=
  (List.getElem?_eq_some_iff.mp found).1

theorem drop_eq_cons (found : text[i]? = some c) : text.drop i = c :: text.drop (i + 1) := by
  obtain ⟨lt, rfl⟩ := List.getElem?_eq_some_iff.mp found
  exact List.drop_eq_getElem_cons lt

theorem drop_eq_nil (missing : text[i]? = none) : text.drop i = [] :=
  List.drop_eq_nil_of_le (List.getElem?_eq_none_iff.mp missing)

theorem between_self (first : Nat) : between text first first = [] := by
  rw [between, Nat.sub_self, List.take_zero]

theorem between_succ {first : Nat} (le : first ≤ i) (found : text[i]? = some c) :
    between text first (i + 1) = between text first i ++ [c] := by
  rw [between, Nat.succ_sub le, List.take_add_one, List.getElem?_drop, Nat.add_sub_cancel' le, found]
  rfl

theorem reverse_between_succ {first : Nat} (le : first ≤ i) (found : text[i]? = some c) :
    (between text first (i + 1)).reverse = c :: (between text first i).reverse := by
  rw [between_succ le found, List.reverse_concat]

/-! ## The loops -/

/-- The position of the mark that ends quoted text. -/
def closingMark? (text : List Char) (mark : Char) (i : Nat) : Option Nat :=
  match found : text[i]? with
  | none => none
  | some c =>
    if c = '\\' then closingMark? text mark (i + 2)
    else if c = mark then some i
    else closingMark? text mark (i + 1)
termination_by text.length - i
decreasing_by
  all_goals
    have := lt_length found
    omega

theorem le_closingMark {mark : Char} {j : Nat} (found : closingMark? text mark i = some j) :
    i ≤ j := by
  fun_induction closingMark? text mark i with
  | case1 => cases found
  | case2 i missing ih => exact Nat.le_of_add_right_le (ih found)
  | case3 i => exact Nat.le_of_eq (Option.some.inj found)
  | case4 i c _ _ _ ih => exact Nat.le_of_succ_le (ih found)

/-- The position after the bracket that was opened at a position, with these closers due. -/
def bracketEnd (text : List Char) (opened : Nat) (closers : List Char) (i : Nat) :
    Except Failure Nat :=
  match closers with
  | [] => .ok i
  | closer :: others =>
    match found : text[i]? with
    | none => .error ⟨opened, .unclosedBracket⟩
    | some c =>
      if Quote.isMark c then
        match ends : closingMark? text c (i + 1) with
        | none => .error ⟨i, .unterminatedString⟩
        | some j => bracketEnd text opened (closer :: others) (j + 1)
      else if c = '[' then bracketEnd text opened (']' :: closer :: others) (i + 1)
      else if c = '(' then bracketEnd text opened (')' :: closer :: others) (i + 1)
      else if c = ']' ∨ c = ')' then
        if closer = c then bracketEnd text opened others (i + 1) else .error ⟨i, .unbalanced c⟩
      else bracketEnd text opened (closer :: others) (i + 1)
termination_by text.length - i
decreasing_by
  · have := lt_length found
    have := le_closingMark ends
    omega
  all_goals
    have := lt_length found
    omega

def flawAt {α : Type} (position : Nat) (result : Except PathFlaw α) : Except Failure α :=
  result.mapError fun flaw => ⟨position, flaw⟩

/-- The step of the bracket that is opened at a position, and the position after it. -/
def bracket (text : List Char) (opened : Nat) : Except Failure (Step × Nat) :=
  (bracketEnd text opened [']'] (opened + 1)).bind fun last =>
    (flawAt (opened + 1) (Subscript.classify (Text.trim (between text (opened + 1) (last - 1))))).map
      fun step => (step, last)

/-- The position of the separator that ends a member. -/
def memberEnd (text : List Char) (i : Nat) : Except Failure Nat :=
  match found : text[i]? with
  | none => .ok i
  | some c =>
    if isSeparator c then .ok i
    else if c = ']' then .error ⟨i, .unbalanced c⟩
    else memberEnd text (i + 1)
termination_by text.length - i
decreasing_by
  have := lt_length found
  omega

/-- The step of the member that begins at a position, and the position after it. -/
def member (text : List Char) (first : Nat) : Except Failure (Step × Nat) :=
  (memberEnd text first).bind fun last =>
    (flawAt first (Subscript.member (between text first last))).map fun step => (step, last)

/-- The steps of the construct that begins with `c` at a position, the last first, and the position after
it. -/
def construct (text : List Char) (i : Nat) (c : Char) : Except Failure (List Step × Nat) :=
  match c with
  | '.' =>
    if text[i + 1]? = some '.' then
      match text[i + 2]? with
      | none => .error ⟨i, .danglingDescent⟩
      | some '.' => .error ⟨i + 2, .unexpected '.'⟩
      | some '^' => .error ⟨i + 2, .danglingDescent⟩
      | some '[' => .ok ([.descent], i + 2)
      | some _ => (member text (i + 2)).map fun (step, last) => ([step, .descent], last)
    else (member text (i + 1)).map fun (step, last) => ([step], last)
  | '[' => (bracket text i).map fun (step, last) => ([step], last)
  | '^' => .ok ([.parent], i + 1)
  | ']' => .error ⟨i, .unbalanced c⟩
  | ')' => .error ⟨i, .unbalanced c⟩
  | c => .error ⟨i, .unexpected c⟩

/-! Every construct ends after the position where it begins. -/

theorem le_bracketEnd {opened last : Nat} {closers : List Char}
    (ends : bracketEnd text opened closers i = .ok last) : i ≤ last := by
  fun_induction bracketEnd text opened closers i with
  | case1 i => exact Nat.le_of_eq (Except.ok.inj ends)
  | case4 i closer others c _ _ j closing ih =>
      exact Nat.le_of_succ_le (Nat.le_trans (le_closingMark closing) (Nat.le_of_succ_le (ih ends)))
  | case5 i closer others _ _ ih => exact Nat.le_of_succ_le (ih ends)
  | case6 i closer others _ _ _ ih => exact Nat.le_of_succ_le (ih ends)
  | case7 i others c _ _ _ _ _ ih => exact Nat.le_of_succ_le (ih ends)
  | case9 i closer others c _ _ _ _ _ ih => exact Nat.le_of_succ_le (ih ends)
  | _ => cases ends

theorem le_memberEnd {last : Nat} (ends : memberEnd text i = .ok last) : i ≤ last := by
  fun_induction memberEnd text i with
  | case1 i => exact Nat.le_of_eq (Except.ok.inj ends)
  | case2 i => exact Nat.le_of_eq (Except.ok.inj ends)
  | case3 => cases ends
  | case4 i c _ _ _ ih => exact Nat.le_of_succ_le (ih ends)

theorem le_of_member {step : Step} {last : Nat} (read : member text i = .ok (step, last)) :
    i ≤ last := by
  obtain ⟨last', ends, read⟩ := bind_eq_ok_iff.mp read
  obtain ⟨_, _, eq⟩ := map_eq_ok_iff.mp read
  cases eq
  exact le_memberEnd ends

theorem lt_of_bracket {step : Step} {last : Nat} (read : bracket text i = .ok (step, last)) :
    i < last := by
  obtain ⟨last', ends, read⟩ := bind_eq_ok_iff.mp read
  obtain ⟨_, _, eq⟩ := map_eq_ok_iff.mp read
  cases eq
  exact le_bracketEnd ends

theorem lt_of_construct {added : List Step} {last : Nat}
    (read : construct text i c = .ok (added, last)) : i < last := by
  rw [construct.eq_def] at read
  split at read
  · split at read
    · split at read
      · cases read
      · cases read
      · cases read
      · cases read
        omega
      · obtain ⟨⟨step, last'⟩, first, eq⟩ := map_eq_ok_iff.mp read
        cases eq
        exact Nat.le_of_succ_le (le_of_member first)
    · obtain ⟨⟨step, last'⟩, first, eq⟩ := map_eq_ok_iff.mp read
      cases eq
      exact le_of_member first
  · obtain ⟨⟨step, last'⟩, first, eq⟩ := map_eq_ok_iff.mp read
    cases eq
    exact lt_of_bracket first
  · cases read
    exact Nat.lt_succ_self i
  all_goals cases read

/-- The constructs from a position on, after steps that are complete, the last first. -/
def constructs (text : List Char) (steps : List Step) (i : Nat) : Except Failure (List Step) :=
  match _ : text[i]? with
  | none => .ok steps.reverse
  | some c =>
    match _ : construct text i c with
    | .error failure => .error failure
    | .ok (added, last) => constructs text (added ++ steps) last
termination_by text.length - i
decreasing_by
  exact Nat.sub_lt_sub_left (lt_length ‹_›) (lt_of_construct ‹_›)

/-- A member without a dot before it, if one begins at the position. -/
def bare (text : List Char) (steps : List Step) (i : Nat) : Except Failure (List Step × Nat) :=
  match text[i]? with
  | none => .ok (steps, i)
  | some c =>
    if isSeparator c then .ok (steps, i)
    else (member text i).map fun (step, last) => (step :: steps, last)

/-- The first steps, the last first, and the position after them. -/
def beginning (text : List Char) : Except Failure (List Step × Nat) :=
  if text[0]? = some '$' then bare text [.root] 1 else bare text [] 0

/-- The steps of an expression that is not blank. -/
def readSteps (text : List Char) : Except Failure (List Step) :=
  (beginning text).bind fun (steps, i) => constructs text steps i

/-! ## What the one-character scan makes of the rest -/

/-- The scan of what is left, to its end. -/
def resume (s : State) (rest : List Char) : Except Failure (List Step) :=
  (rest.foldlM State.step s).bind State.finish

theorem resume_nil (s : State) : resume s [] = s.finish :=
  rfl

theorem resume_cons (s : State) (rest : List Char) :
    resume s (c :: rest) = (s.step c).bind fun s => resume s rest := by
  rw [resume, List.foldlM_cons]
  cases s.step c with
  | error _ => rfl
  | ok next => rfl

section Brackets

variable {opened quoteAt : Nat} {closers : List Char} {steps : List Step}

/-- The scan is inside a bracket at a position. -/
def inside (text : List Char) (opened : Nat) (closers : List Char) (quote : Quote) (quoteAt : Nat)
    (steps : List Step) (i : Nat) : State :=
  ⟨i, .bracket opened closers quote quoteAt (between text (opened + 1) i).reverse, steps⟩

theorem step_inside {quote : Quote} :
    (inside text opened closers quote quoteAt steps i).step c =
      (inside text opened closers quote quoteAt steps i).inBracket opened closers quote quoteAt
        (between text (opened + 1) i).reverse c :=
  rfl

/-- What is collected is the text up to the next position. -/
theorem go_inside {quote quote' : Quote} {quoteAt' : Nat} {closers' : List Char} (le : opened + 1 ≤ i)
    (found : text[i]? = some c) :
    (inside text opened closers quote quoteAt steps i).go
        (.bracket opened closers' quote' quoteAt' (c :: (between text (opened + 1) i).reverse)) =
      inside text opened closers' quote' quoteAt' steps (i + 1) := by
  rw [← reverse_between_succ le found]
  rfl

theorem step_quoted {quote : Quote} (quoted : quote ≠ .outside) (le : opened + 1 ≤ i)
    (found : text[i]? = some c) :
    (inside text opened closers quote quoteAt steps i).step c =
      .ok (inside text opened closers (quote.next c) quoteAt steps (i + 1)) := by
  rw [step_inside, State.inBracket]
  dsimp only
  rw [if_pos quoted, go_inside le found]

/-- Quoted text ends at its mark, or the scan ends in it. -/
theorem resume_quoted {mark : Char} (le : opened + 1 ≤ i) :
    resume (inside text opened closers (.inside mark) quoteAt steps i) (text.drop i) =
      match closingMark? text mark i with
      | none => .error ⟨quoteAt, .unterminatedString⟩
      | some last =>
        resume (inside text opened closers .outside quoteAt steps (last + 1))
          (text.drop (last + 1)) := by
  fun_induction closingMark? text mark i with
  | case1 i missing =>
      rw [drop_eq_nil missing]
      rfl
  | case2 i escape ih =>
      rw [← ih (Nat.le_add_right_of_le le), drop_eq_cons escape, resume_cons,
        step_quoted (by simp) le escape, Quote.next, if_pos rfl]
      show resume _ (text.drop (i + 1)) = _
      cases next : text[i + 1]? with
      | none =>
          have beyond := List.getElem?_eq_none_iff.mp next
          rw [drop_eq_nil next, List.drop_eq_nil_of_le (Nat.le_succ_of_le beyond)]
          rfl
      | some d =>
          rw [drop_eq_cons next, resume_cons, step_quoted (by simp) (Nat.le_succ_of_le le) next]
          rfl
  | case3 i found escape =>
      rw [drop_eq_cons found, resume_cons, step_quoted (by simp) le found, Quote.next, if_neg escape,
        if_pos rfl]
      rfl
  | case4 i c found escape other ih =>
      rw [← ih (Nat.le_succ_of_le le), drop_eq_cons found, resume_cons, step_quoted (by simp) le found,
        Quote.next, if_neg escape, if_neg other]
      rfl

/-- The rest of a scan that has come to the end of a bracket. -/
def afterBracket (text : List Char) (opened : Nat) (steps : List Step) (last : Nat) :
    Except Failure (List Step) :=
  (flawAt (opened + 1) (Subscript.classify (Text.trim (between text (opened + 1) (last - 1))))).bind
    fun step => resume ⟨last, .ready, step :: steps⟩ (text.drop last)

section Outside

variable (le : opened + 1 ≤ i) (found : text[i]? = some c)

include le found

theorem step_opening {right : Char} (partners : Quote.Partners c right) :
    (inside text opened closers .outside quoteAt steps i).step c =
      .ok (inside text opened (right :: closers) .outside quoteAt steps (i + 1)) := by
  cases partners with
  | bracket => exact congrArg Except.ok (go_inside le found)
  | parenthesis => exact congrArg Except.ok (go_inside le found)

theorem step_other (opens : ¬ (c = '(' ∨ c = '[')) (closes : ¬ (c = ']' ∨ c = ')')) :
    (inside text opened closers .outside quoteAt steps i).step c =
      .ok (inside text opened closers (Quote.outside.next c) (if Quote.isMark c then i else quoteAt)
        steps (i + 1)) := by
  rw [step_inside, State.inBracket]
  dsimp only
  rw [if_neg (by simp), if_neg fun eq => opens (.inr eq), if_neg fun eq => opens (.inl eq),
    if_neg closes, go_inside le found]
  rfl

theorem step_closing {closer : Char} {others : List Char} (closes : c = ']' ∨ c = ')') :
    (inside text opened (closer :: others) .outside quoteAt steps i).step c =
      if closer ≠ c then .error ⟨i, .unbalanced c⟩
      else if others.isEmpty then
        State.pushAt ⟨i + 1, .ready, steps⟩ (opened + 1)
          (Subscript.classify (Text.trim (between text (opened + 1) i)))
      else .ok (inside text opened others .outside quoteAt steps (i + 1)) := by
  have bracket : c ≠ '[' := by rcases closes with rfl | rfl <;> decide
  have parenthesis : c ≠ '(' := by rcases closes with rfl | rfl <;> decide
  rw [step_inside, State.inBracket]
  dsimp only
  rw [if_neg (by simp), if_neg bracket, if_neg parenthesis, if_pos closes, List.reverse_reverse,
    go_inside le found]
  simp only [List.head?_cons, ne_eq, Option.some_inj]
  rfl

end Outside

/-- A bracket ends where the search for its closer ends. -/
theorem resume_bracket (le : opened + 1 ≤ i) (due : closers ≠ []) :
    resume (inside text opened closers .outside quoteAt steps i) (text.drop i) =
      (bracketEnd text opened closers i).bind (afterBracket text opened steps) := by
  fun_induction bracketEnd text opened closers i generalizing quoteAt with
  | case1 => exact absurd rfl due
  | case2 i closer others missing =>
      rw [drop_eq_nil missing]
      rfl
  | case3 i closer others c found mark unended =>
      have opens := Quote.unnested_of_isMark mark
      rw [drop_eq_cons found, resume_cons, step_other le found opens.1 fun h => opens.2 h.symm,
        Quote.next, if_pos mark, if_pos mark]
      show resume _ _ = _
      rw [resume_quoted (Nat.le_succ_of_le le), unended]
      rfl
  | case4 i closer others c found mark j ends ih =>
      have opens := Quote.unnested_of_isMark mark
      have le' : opened + 1 ≤ j + 1 :=
        Nat.le_trans le (Nat.le_succ_of_le (Nat.le_of_succ_le (le_closingMark ends)))
      rw [drop_eq_cons found, resume_cons, step_other le found opens.1 fun h => opens.2 h.symm,
        Quote.next, if_pos mark, if_pos mark, ← ih le' due]
      show resume _ _ = _
      rw [resume_quoted (Nat.le_succ_of_le le), ends]
  | case5 i closer others found _ ih =>
      rw [drop_eq_cons found, resume_cons, step_opening le found .bracket,
        ← ih (Nat.le_succ_of_le le) (List.cons_ne_nil _ _)]
      rfl
  | case6 i closer others found _ _ ih =>
      rw [drop_eq_cons found, resume_cons, step_opening le found .parenthesis,
        ← ih (Nat.le_succ_of_le le) (List.cons_ne_nil _ _)]
      rfl
  | case7 i others c found _ _ _ closes ih =>
      rw [drop_eq_cons found, resume_cons, step_closing le found closes, if_neg (not_not_intro rfl)]
      cases others with
      | nil =>
          rw [bracketEnd]
          show _ = afterBracket _ _ _ _
          rw [afterBracket, Nat.add_sub_cancel]
          cases Subscript.classify (Text.trim (between text (opened + 1) i)) with
          | error _ => rfl
          | ok step => rfl
      | cons next others =>
          rw [← ih (Nat.le_succ_of_le le) (List.cons_ne_nil _ _)]
          rfl
  | case8 i closer others c found _ _ _ closes other =>
      rw [drop_eq_cons found, resume_cons, step_closing le found closes, if_pos other]
      rfl
  | case9 i closer others c found mark bracket parenthesis closes ih =>
      have opens : ¬ (c = '(' ∨ c = '[') := fun h => h.elim parenthesis bracket
      rw [drop_eq_cons found, resume_cons, step_other le found opens closes, Quote.next, if_neg mark,
        ← ih (Nat.le_succ_of_le le) due]
      rfl

end Brackets

section Members

variable {first : Nat} {steps : List Step}

/-- The scan of what is left, after the steps of a construct. -/
def proceed (text : List Char) (steps : List Step) : List Step × Nat → Except Failure (List Step)
  | (added, last) => resume ⟨last, .ready, added ++ steps⟩ (text.drop last)

/-- The scan is inside a member at a position. -/
def inMember (text : List Char) (first : Nat) (steps : List Step) (i : Nat) : State :=
  ⟨i, .member first (between text first i).reverse, steps⟩

/-- The rest of a scan that has come to the end of a member. -/
def afterMember (text : List Char) (first : Nat) (steps : List Step) (last : Nat) :
    Except Failure (List Step) :=
  (flawAt first (Subscript.member (between text first last))).bind fun step =>
    resume ⟨last, .ready, step :: steps⟩ (text.drop last)

theorem step_inMember :
    (inMember text first steps i).step c =
      if isSeparator c then
        ((inMember text first steps i).pushAt first (Subscript.member (between text first i))).bind
          fun s => s.separator c
      else if c = ']' then .error ⟨i, .unbalanced c⟩
      else .ok ((inMember text first steps i).go
        (.member first (c :: (between text first i).reverse))) := by
  rw [inMember, State.step.eq_def]
  dsimp only
  rw [List.reverse_reverse]
  rfl

theorem finish_inMember :
    (inMember text first steps i).finish =
      ((inMember text first steps i).pushAt first (Subscript.member (between text first i))).map
        fun s => s.steps.reverse := by
  rw [inMember, State.finish]
  dsimp only
  rw [List.reverse_reverse]

theorem resume_member (le : first ≤ i) :
    resume (inMember text first steps i) (text.drop i) =
      (memberEnd text i).bind (afterMember text first steps) := by
  fun_induction memberEnd text i with
  | case1 i missing =>
      show _ = afterMember text first steps i
      rw [drop_eq_nil missing, resume_nil, finish_inMember, afterMember, drop_eq_nil missing]
      cases Subscript.member (between text first i) with
      | error _ => rfl
      | ok step => rfl
  | case2 i c found separator =>
      show _ = afterMember text first steps i
      rw [drop_eq_cons found, resume_cons, step_inMember, if_pos separator, afterMember,
        drop_eq_cons found]
      cases Subscript.member (between text first i) with
      | error _ => rfl
      | ok step =>
          show (State.separator _ c).bind _ = resume _ _
          rw [resume_cons]
          exact congrArg (Except.bind · _) (separator_mode ..)
  | case3 i found separator =>
      rw [drop_eq_cons found, resume_cons, step_inMember, if_neg separator, if_pos rfl]
      rfl
  | case4 i c found separator other ih =>
      rw [drop_eq_cons found, resume_cons, step_inMember, if_neg separator, if_neg other,
        ← ih (Nat.le_succ_of_le le), inMember, inMember, reverse_between_succ le found]
      rfl

theorem memberEnd_eq (found : text[i]? = some c) :
    memberEnd text i =
      if isSeparator c then .ok i
      else if c = ']' then .error ⟨i, .unbalanced c⟩
      else memberEnd text (i + 1) := by
  rw [memberEnd]
  split
  · rename_i missing
    rw [found] at missing
    cases missing
  · rename_i c' found'
    rw [found] at found'
    cases found'
    rfl

theorem member_empty (none : ∀ c ∈ text[i]?, isSeparator c = true) :
    member text i = .error ⟨i, .emptyMember⟩ := by
  have ends : memberEnd text i = .ok i := by
    cases found : text[i]? with
    | none =>
        rw [memberEnd]
        split
        · rfl
        · rename_i found'
          rw [found] at found'
          cases found'
    | some c => rw [memberEnd_eq found, if_pos (none c found)]
  rw [member, ends]
  show (flawAt i (Subscript.member (between text i i))).map _ = _
  rw [between_self]
  rfl

theorem beginMember_bind (mode : Mode) (found : text[i]? = some c) (plain : isSeparator c = false) :
    ((State.beginMember ⟨i, mode, steps⟩ c).bind fun s => resume s (text.drop (i + 1))) =
      (member text i).bind fun r => proceed text steps ([r.1], r.2) := by
  rw [member, State.beginMember, memberEnd_eq found, plain]
  by_cases bracket : c = ']'
  · rw [if_pos bracket, if_neg (by simp), if_pos bracket]
    rfl
  · rw [if_neg bracket, if_neg (by simp), if_neg bracket]
    have begins : inMember text i steps (i + 1) = ⟨i + 1, .member i [c], steps⟩ := by
      rw [inMember, reverse_between_succ (Nat.le_refl i) found, between_self]
      rfl
    show resume ⟨i + 1, .member i [c], steps⟩ _ = _
    rw [← begins, resume_member (Nat.le_succ i)]
    cases memberEnd text (i + 1) with
    | error _ => rfl
    | ok last =>
        show afterMember text i steps last = ((flawAt i (Subscript.member _)).map _).bind _
        rw [afterMember]
        cases Subscript.member (between text i last) with
        | error _ => rfl
        | ok step => rfl

end Members

section Constructs

variable {steps : List Step}

theorem map_bind {α β γ : Type} (result : Except Failure α) (f : α → β) (g : β → Except Failure γ) :
    (result.map f).bind g = result.bind fun a => g (f a) := by
  cases result <;> rfl

theorem separator_bracket (found : text[i]? = some '[') :
    resume ⟨i, .ready, steps⟩ (text.drop i) =
      (bracket text i).bind fun r => proceed text steps ([r.1], r.2) := by
  have begins : inside text i [']'] .outside i steps (i + 1) =
      ⟨i + 1, .bracket i [']'] .outside i [], steps⟩ := by
    rw [inside, between_self]
    rfl
  rw [drop_eq_cons found, resume_cons]
  show resume ⟨i + 1, .bracket i [']'] .outside i [], steps⟩ _ = _
  rw [← begins, resume_bracket (Nat.le_refl _) (List.cons_ne_nil _ _), bracket]
  cases bracketEnd text i [']'] (i + 1) with
  | error _ => rfl
  | ok last =>
      show afterBracket text i steps last = ((flawAt _ _).map _).bind _
      rw [map_bind]
      rfl

theorem isSeparator_eq_false (dot : c ≠ '.') (bracket : c ≠ '[') (caret : c ≠ '^') :
    isSeparator c = false := by
  simp [isSeparator, dot, bracket, caret]

/-- After two dots the scan is in a mode of its own, and the loop looks at the next character. -/
theorem resume_descent (first : Nat) :
    resume ⟨i, .descent first, steps⟩ (text.drop i) =
      match text[i]? with
      | none => .error ⟨first, .danglingDescent⟩
      | some '.' => .error ⟨i, .unexpected '.'⟩
      | some '^' => .error ⟨i, .danglingDescent⟩
      | some '[' => resume ⟨i, .ready, steps⟩ (text.drop i)
      | some _ => (member text i).bind fun r => proceed text steps ([r.1], r.2) := by
  split
  · rename_i missing
    rw [drop_eq_nil missing]
    rfl
  · rename_i found
    rw [drop_eq_cons found]
    rfl
  · rename_i found
    rw [drop_eq_cons found]
    rfl
  · rename_i found
    rw [drop_eq_cons found]
    rfl
  · rename_i c dot caret bracket found
    have plain : isSeparator c = false := isSeparator_eq_false dot bracket caret
    have step : State.step ⟨i, .descent first, steps⟩ c =
        State.beginMember ⟨i, .descent first, steps⟩ c := by
      rw [State.step.eq_def]
      dsimp only
      split
      · exact absurd rfl dot
      · exact absurd rfl caret
      · exact absurd rfl bracket
      · rfl
    rw [drop_eq_cons found, resume_cons, step]
    exact beginMember_bind _ found plain

theorem resume_dot :
    resume ⟨i, .dot, steps⟩ (text.drop i) =
      if text[i]? = some '.' then
        resume ⟨i + 1, .descent (i - 1), .descent :: steps⟩ (text.drop (i + 1))
      else (member text i).bind fun r => proceed text steps ([r.1], r.2) := by
  cases found : text[i]? with
  | none =>
      have empty : member text i = .error ⟨i, .emptyMember⟩ := member_empty (by simp [found])
      rw [drop_eq_nil found, empty]
      rfl
  | some c =>
      rw [drop_eq_cons found, resume_cons, State.step.eq_def]
      dsimp only
      by_cases dot : c = '.'
      · rw [if_pos dot, if_pos (congrArg some dot)]
        rfl
      · rw [if_neg dot, if_neg fun eq => dot (Option.some.inj eq)]
        split
        · rename_i separator
          rw [member_empty (by simpa [found] using separator)]
          rfl
        · rename_i plain
          exact beginMember_bind _ found (Bool.eq_false_iff.mpr plain)

theorem resume_construct (found : text[i]? = some c) :
    resume ⟨i, .ready, steps⟩ (text.drop i) = (construct text i c).bind (proceed text steps) := by
  rw [construct.eq_def]
  split
  · rw [drop_eq_cons found, resume_cons]
    show resume ⟨i + 1, .dot, steps⟩ _ = _
    rw [resume_dot]
    split
    · have looks : resume ⟨i + 2, .descent i, .descent :: steps⟩ (text.drop (i + 2)) = _ :=
        resume_descent i
      refine looks.trans ?_
      split
      · rfl
      · rfl
      · rfl
      · rfl
      · rw [map_bind]
        rfl
    · rw [map_bind]
  · rw [separator_bracket found, map_bind]
  · rw [drop_eq_cons found]
    rfl
  · rw [drop_eq_cons found]
    rfl
  · rw [drop_eq_cons found]
    rfl
  · rename_i dot bracket caret closer closer'
    rw [drop_eq_cons found, resume_cons, State.step.eq_def]
    dsimp only
    rw [State.separator.eq_def]
    split
    · exact absurd rfl dot
    · exact absurd rfl bracket
    · exact absurd rfl caret
    · exact absurd rfl closer
    · exact absurd rfl closer'
    · rfl

theorem resume_ready : resume ⟨i, .ready, steps⟩ (text.drop i) = constructs text steps i := by
  fun_induction constructs text steps i with
  | case1 steps i missing =>
      rw [drop_eq_nil missing]
      rfl
  | case2 steps i c found failure read =>
      rw [resume_construct found, read]
      rfl
  | case3 steps i c found added last read ih =>
      rw [resume_construct found, read, ← ih]
      rfl

/-- Where a member may begin without a dot, the scan goes on with that member or between constructs. -/
theorem resume_bare {mode : Mode}
    (finish : State.finish ⟨i, mode, steps⟩ = .ok steps.reverse)
    (step : ∀ c ∈ text[i]?, State.step ⟨i, mode, steps⟩ c =
      if isSeparator c then State.separator ⟨i, mode, steps⟩ c
      else State.beginMember ⟨i, mode, steps⟩ c) :
    resume ⟨i, mode, steps⟩ (text.drop i) =
      (bare text steps i).bind fun (steps, i) => constructs text steps i := by
  rw [bare]
  cases found : text[i]? with
  | none =>
      show _ = constructs text steps i
      rw [← resume_ready, drop_eq_nil found, resume_nil, finish]
      rfl
  | some c =>
      rw [drop_eq_cons found, resume_cons, step c found]
      dsimp only
      split
      · show _ = constructs text steps i
        rw [← resume_ready, drop_eq_cons found, resume_cons]
        exact congrArg (Except.bind · _) (separator_mode ..)
      · rename_i plain
        rw [beginMember_bind mode found (Bool.eq_false_iff.mpr plain), map_bind]
        congr 1
        funext r
        exact resume_ready

end Constructs

/-- The one-character scan and the scan by positions are one function. -/
theorem steps_eq_readSteps (text : List Char) : Scan.steps text = readSteps text := by
  have start : Scan.steps text = resume ⟨0, .start, []⟩ (text.drop 0) := rfl
  rw [start, readSteps, beginning]
  split
  · rename_i root
    rw [drop_eq_cons root, resume_cons]
    show resume ⟨1, .root, [.root]⟩ (text.drop 1) = _
    exact resume_bare rfl fun _ _ => rfl
  · rename_i unrooted
    refine resume_bare rfl ?_
    intro c found
    have ne : c ≠ '$' := by
      rintro rfl
      exact unrooted found
    exact if_neg ne

end Indexed

end Scan

end TreePath

