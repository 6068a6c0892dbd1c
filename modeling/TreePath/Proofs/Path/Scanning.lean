/-
# Scanning — the scan of a path, one construct at a time

The scan is a fold over characters.  To reason about paths one wants to know what a whole construct does, and
that is what this module has.

A state is `Settled` when the constructs that were scanned so far are complete; a separator then begins the
next one (`Settled.step`).  From a settled state

* a bracket around balanced text adds the one step that its content stands for (`Opens.bracket`);
* a dot and a token add the step that the token stands for (`Settled.dotted`);
* a caret and two dots are as they look (`Settled.parent`, `Settled.descent`).

Between brackets the scan passes over balanced text (`Within.balanced`, by induction on how the text is
balanced), so that no bracket inside is taken for the end.

The predicates on states leave positions out.  `Scans` runs from state to state, and `Leads` from a state to
one with a property.  `Turn` is the converse direction: what one character did to a bracket, if it was taken.
-/
import TreePath.Path.Scan
import TreePath.Proofs.Path.Quotation

namespace TreePath

namespace Scan

def Scans (s : State) (text : List Char) (s' : State) : Prop :=
  text.foldlM State.step s = .ok s'

theorem Scans.nil (s : State) : Scans s [] s :=
  rfl

theorem Scans.cons {s mid s' : State} {c : Char} {rest : List Char} (first : s.step c = .ok mid)
    (others : Scans mid rest s') : Scans s (c :: rest) s' := by
  rw [Scans, List.foldlM_cons, first]
  exact others

theorem Scans.append {s mid s' : State} {a b : List Char} (ha : Scans s a mid)
    (hb : Scans mid b s') : Scans s (a ++ b) s' := by
  rw [Scans, List.foldlM_append, ha]
  exact hb

theorem scans_cons_iff {s s' : State} {c : Char} {rest : List Char} :
    Scans s (c :: rest) s' ↔ ∃ mid, s.step c = .ok mid ∧ Scans mid rest s' := by
  constructor
  · intro h
    rw [Scans, List.foldlM_cons] at h
    cases first : s.step c with
    | error _ => rw [first] at h; cases h
    | ok mid =>
        rw [first] at h
        exact ⟨mid, rfl, h⟩
  · rintro ⟨mid, first, others⟩
    exact .cons first others

theorem steps_eq_ok_iff {expression : List Char} {parsed : List Step} :
    steps expression = .ok parsed ↔
      ∃ s, Scans .start expression s ∧ s.finish = .ok parsed := by
  simp only [steps, Scans]
  cases expression.foldlM State.step State.start with
  | error _ =>
      constructor
      · intro h
        cases h
      · rintro ⟨_, h, _⟩
        cases h
  | ok s =>
      constructor
      · intro h
        exact ⟨s, rfl, h⟩
      · rintro ⟨_, h, finish⟩
        cases h
        exact finish

/-- The scan of a text from a state ends in one with a property. -/
def Leads (s : State) (text : List Char) (goal : State → Prop) : Prop :=
  ∃ s', Scans s text s' ∧ goal s'

theorem Leads.cons {s mid : State} {c : Char} {rest : List Char} {goal : State → Prop}
    (first : s.step c = .ok mid) (others : Leads mid rest goal) : Leads s (c :: rest) goal := by
  obtain ⟨s', scans, reached⟩ := others
  exact ⟨s', .cons first scans, reached⟩

theorem Leads.append {s : State} {a b : List Char} {mid goal : State → Prop}
    (ha : Leads s a mid) (hb : ∀ s', mid s' → Leads s' b goal) : Leads s (a ++ b) goal := by
  obtain ⟨s', scans, reached⟩ := ha
  obtain ⟨last, scans', reached'⟩ := hb s' reached
  exact ⟨last, scans.append scans', reached'⟩

/-! ## Between constructs -/

/-- Every construct that was scanned is complete, and these are the steps, the last first. -/
inductive Settled (steps : List Step) : State → Prop
  | start {position : Nat} : Settled steps ⟨position, .start, steps⟩
  | root {position : Nat} : Settled steps ⟨position, .root, steps⟩
  | ready {position : Nat} : Settled steps ⟨position, .ready, steps⟩
  | member {position first : Nat} {token : List Char} {step : Step} {others : List Step} :
      Subscript.member token.reverse = .ok step → steps = step :: others →
      Settled steps ⟨position, .member first token, others⟩

theorem Settled.finish {steps : List Step} {s : State} (h : Settled steps s) :
    s.finish = .ok steps.reverse := by
  cases h with
  | start => rfl
  | root => rfl
  | ready => rfl
  | member member eq =>
      subst eq
      show (State.pushAt _ _ (Subscript.member _)).map _ = _
      rw [member]
      rfl

theorem settled_of_finish {s : State} {parsed : List Step} (h : s.finish = .ok parsed) :
    Settled parsed.reverse s := by
  obtain ⟨position, mode, steps⟩ := s
  cases mode with
  | start =>
      cases h
      rw [List.reverse_reverse]
      exact .start
  | root =>
      cases h
      rw [List.reverse_reverse]
      exact .root
  | ready =>
      cases h
      rw [List.reverse_reverse]
      exact .ready
  | dot => cases h
  | descent => cases h
  | member first token =>
      change (State.pushAt _ _ (Subscript.member _)).map _ = _ at h
      cases member : Subscript.member token.reverse with
      | error _ =>
          rw [member] at h
          cases h
      | ok step =>
          rw [member] at h
          cases h
          rw [List.reverse_reverse]
          exact .member member rfl
  | bracket first closers quote quoteAt content =>
      change (if quote = .outside then Except.error _ else Except.error _) = _ at h
      split at h <;> cases h

theorem separator_mode (position : Nat) (mode : Mode) (steps : List Step) (c : Char) :
    State.separator ⟨position, mode, steps⟩ c = State.separator ⟨position, .ready, steps⟩ c := by
  simp only [State.separator]
  split <;> rfl

/-- A separator after complete constructs begins the next one. -/
theorem Settled.step {steps : List Step} {s : State} (h : Settled steps s) {c : Char}
    (separator : isSeparator c = true) :
    s.step c = State.separator ⟨s.position, .ready, steps⟩ c := by
  have ne : c ≠ '$' := by
    rintro rfl
    exact absurd separator (by decide)
  cases h with
  | start =>
      show (if c = '$' then _ else if isSeparator c = true then _ else _) = _
      rw [if_neg ne, if_pos separator]
      exact separator_mode _ _ _ _
  | root =>
      show (if isSeparator c = true then _ else _) = _
      rw [if_pos separator]
      exact separator_mode _ _ _ _
  | ready => rfl
  | member member eq =>
      subst eq
      show (if isSeparator c = true then (State.pushAt _ _ (Subscript.member _)).bind _ else _) = _
      rw [if_pos separator, member]
      exact separator_mode _ _ _ _

/-! ## Brackets -/

/-- What a character inside a bracket does to the closers that are due and to the quotation, unless it ends
the bracket. -/
inductive Turn : List Char → Quote → Char → List Char → Quote → Prop
  | quoted {closers : List Char} {quote : Quote} {c : Char} : quote ≠ .outside →
      Turn closers quote c closers (quote.next c)
  | opening {closers : List Char} {left right : Char} : Quote.Partners left right →
      Turn closers .outside left (right :: closers) .outside
  | closing {closers : List Char} {right : Char} : closers ≠ [] →
      Turn (right :: closers) .outside right closers .outside
  | other {closers : List Char} {c : Char} : ¬ (c = '(' ∨ c = '[') → ¬ (c = ')' ∨ c = ']') →
      Turn closers .outside c closers (Quote.outside.next c)

/-- A character inside a bracket is collected, or it ends the bracket and adds the step that the content
stands for. -/
theorem inBracket_eq_ok {s s' : State} {first quoteAt : Nat} {closers content : List Char} {quote : Quote}
    {c : Char} (taken : s.inBracket first closers quote quoteAt content c = .ok s') :
    (∃ closers' quote' quoteAt', Turn closers quote c closers' quote' ∧
        s' = s.go (.bracket first closers' quote' quoteAt' (c :: content))) ∨
      quote = .outside ∧ closers = [c] ∧ (c = ']' ∨ c = ')') ∧ ∃ step,
        Subscript.classify (Text.trim content.reverse) = .ok step ∧ s' = (s.go .ready).push step := by
  rw [State.inBracket] at taken
  dsimp only at taken
  by_cases quoted : quote = .outside
  · subst quoted
    rw [if_neg (by simp)] at taken
    split at taken
    · rename_i eq
      cases taken
      exact .inl ⟨_, _, _, eq ▸ .opening .bracket, rfl⟩
    split at taken
    · rename_i eq
      cases taken
      exact .inl ⟨_, _, _, eq ▸ .opening .parenthesis, rfl⟩
    split at taken
    · rename_i closes
      split at taken
      · cases taken
      rename_i due
      cases closers with
      | nil => exact absurd due (by simp)
      | cons d others =>
          have same : d = c := by simpa using due
          subst same
          split at taken
          · rename_i last
            have none : others = [] := List.isEmpty_iff.mp last
            subst none
            cases classified : Subscript.classify (Text.trim content.reverse) with
            | error _ =>
                rw [classified] at taken
                cases taken
            | ok step =>
                rw [classified] at taken
                cases taken
                exact .inr ⟨rfl, rfl, closes, step, rfl, rfl⟩
          · rename_i more
            cases taken
            exact .inl ⟨_, _, _, .closing (by simpa using more), rfl⟩
    · rename_i bracket parenthesis closes
      cases taken
      exact .inl ⟨_, _, _, .other (by simp [bracket, parenthesis]) fun h => closes h.symm, rfl⟩
  · rw [if_pos quoted] at taken
    cases taken
    exact .inl ⟨_, _, _, .quoted quoted, rfl⟩

/-- The scan is inside a bracket; positions do not matter. -/
inductive Within (steps : List Step) (closers : List Char) (quote : Quote) (content : List Char) :
    State → Prop
  | mk {position first quoteAt : Nat} :
      Within steps closers quote content
        ⟨position, .bracket first closers quote quoteAt content, steps⟩

section Within

variable {steps : List Step} {closers content : List Char} {s : State}

theorem Within.quoted {quote : Quote} (h : Within steps closers quote content s)
    (inside : quote ≠ .outside) (c : Char) :
    ∃ s', s.step c = .ok s' ∧ Within steps closers (quote.next c) (c :: content) s' := by
  cases h with
  | mk => exact ⟨_, if_pos inside, .mk⟩

/-- Outside quotes, every character but the brackets and parentheses only moves the scan on. -/
theorem Within.outside (h : Within steps closers .outside content s) {c : Char}
    (opens : ¬ (c = '(' ∨ c = '[')) (closes : ¬ (c = ')' ∨ c = ']')) :
    ∃ s', s.step c = .ok s' ∧ Within steps closers (Quote.outside.next c) (c :: content) s' := by
  cases h with
  | @mk position first quoteAt =>
      have step : State.inBracket ⟨position, .bracket first closers .outside quoteAt content, steps⟩
          first closers .outside quoteAt content c = .ok ⟨position + 1, .bracket first closers
            (Quote.outside.next c) (if Quote.isMark c then position else quoteAt) (c :: content),
            steps⟩ := by
        rw [State.inBracket, if_neg (by simp), if_neg fun eq => opens (.inr eq),
          if_neg fun eq => opens (.inl eq), if_neg fun eq => closes eq.symm]
        rfl
      exact ⟨_, step, .mk⟩

theorem Within.opening {left right : Char} (h : Within steps closers .outside content s)
    (partners : Quote.Partners left right) :
    ∃ s', s.step left = .ok s' ∧ Within steps (right :: closers) .outside (left :: content) s' := by
  cases h with
  | mk =>
      cases partners with
      | bracket => exact ⟨_, rfl, .mk⟩
      | parenthesis => exact ⟨_, rfl, .mk⟩

theorem Within.closing {left right : Char} (h : Within steps (right :: closers) .outside content s)
    (partners : Quote.Partners left right) (inner : closers ≠ []) :
    ∃ s', s.step right = .ok s' ∧ Within steps closers .outside (right :: content) s' := by
  cases h with
  | mk =>
      cases closers with
      | nil => exact absurd rfl inner
      | cons next others =>
          cases partners with
          | bracket => exact ⟨_, rfl, .mk⟩
          | parenthesis => exact ⟨_, rfl, .mk⟩

theorem Within.close {step : Step} (h : Within steps [']'] .outside content s)
    (classified : Subscript.classify (Text.trim content.reverse) = .ok step) :
    ∃ s', s.step ']' = .ok s' ∧ Settled (step :: steps) s' := by
  cases h with
  | @mk position first _ =>
      refine ⟨⟨position + 1, .ready, step :: steps⟩, ?_, .ready⟩
      show State.pushAt ⟨position + 1, .ready, steps⟩ (first + 1) (Subscript.classify _) = _
      rw [classified]
      rfl

theorem scans_inside {mark : Char} {body : List Char} (inside : Quote.Inside mark body)
    (position first quoteAt : Nat) (closers content : List Char) (steps : List Step) :
    Scans ⟨position, .bracket first closers (.inside mark) quoteAt content, steps⟩ body
      ⟨position + body.length, .bracket first closers (.inside mark) quoteAt
        (body.reverse ++ content), steps⟩ := by
  have next : ∀ (quote : Quote) (position : Nat) (content : List Char) (c : Char),
      quote ≠ .outside →
      State.step ⟨position, .bracket first closers quote quoteAt content, steps⟩ c =
        .ok ⟨position + 1, .bracket first closers (quote.next c) quoteAt (c :: content), steps⟩ :=
    fun _ _ _ _ quoted => if_pos quoted
  induction inside generalizing position content with
  | nil => exact .nil _
  | @plain c rest ne ne' _ ih =>
      have step := next (.inside mark) position content c (by simp)
      rw [Quote.next, if_neg ne', if_neg ne] at step
      rw [List.length_cons, List.reverse_cons, List.append_assoc, Nat.add_comm rest.length,
        ← Nat.add_assoc]
      exact .cons step (ih (position + 1) (c :: content))
  | @escape c rest _ ih =>
      have step := next (.inside mark) position content '\\' (by simp)
      rw [Quote.next, if_pos rfl] at step
      have step' := next (.escaped mark) (position + 1) ('\\' :: content) c (by simp)
      rw [List.length_cons, List.length_cons, List.reverse_cons, List.reverse_cons,
        List.append_assoc, List.append_assoc, Nat.add_assoc rest.length, Nat.add_comm rest.length,
        ← Nat.add_assoc]
      exact .cons step (.cons step' (ih (position + 2) (c :: '\\' :: content)))

theorem Within.inside {mark : Char} {body : List Char} (inside : Quote.Inside mark body)
    (h : Within steps closers (.inside mark) content s) (escape : mark ≠ '\\') :
    Leads s (body ++ [mark])
      (Within steps closers .outside ((body ++ [mark]).reverse ++ content)) := by
  cases h with
  | @mk position first quoteAt =>
      have scans := scans_inside inside position first quoteAt closers content steps
      have within : Within steps closers (.inside mark) (body.reverse ++ content)
          ⟨position + body.length, .bracket first closers (.inside mark) quoteAt
            (body.reverse ++ content), steps⟩ := .mk
      obtain ⟨s', step, within⟩ := within.quoted (by simp) mark
      rw [Quote.next, if_neg escape, if_pos rfl] at within
      rw [List.reverse_append]
      exact ⟨s', scans.append (.cons step (.nil s')), within⟩

/-- Balanced text leaves the scan of a bracket where it was. -/
theorem Within.balanced {text : List Char} (balanced : Quote.Balanced text)
    (h : Within steps closers .outside content s) (unclosed : closers ≠ []) :
    Leads s text (Within steps closers .outside (text.reverse ++ content)) := by
  induction balanced generalizing s closers content with
  | nil => exact ⟨s, .nil s, h⟩
  | @plain c rest plain _ ih =>
      obtain ⟨opens, closes⟩ := Quote.unnested_of_isPlain plain
      obtain ⟨s', step, within⟩ := h.outside opens closes
      rw [Quote.next_of_isPlain plain] at within
      refine .cons step ?_
      rw [List.reverse_cons, List.append_assoc]
      exact ih within unclosed
  | @quoted mark body rest isMark inside _ ih =>
      obtain ⟨opens, closes⟩ := Quote.unnested_of_isMark isMark
      obtain ⟨s', step, within⟩ := h.outside opens closes
      rw [Quote.next, if_pos isMark] at within
      refine .cons step ?_
      have whole := Leads.append
        (within.inside inside (Quote.ne_escape_of_isMark isMark)) fun _ within => ih within unclosed
      simpa only [List.append_assoc, List.singleton_append, List.reverse_cons,
        List.reverse_append, List.reverse_nil, List.nil_append, List.cons_append] using whole
  | @nested left right body rest partners _ _ ihBody ihRest =>
      obtain ⟨s', step, within⟩ := h.opening partners
      refine .cons step (.append (ihBody within (by simp)) ?_)
      intro _ within
      obtain ⟨s'', step, within⟩ := within.closing partners unclosed
      refine .cons step ?_
      have whole := ihRest within unclosed
      simpa only [List.append_assoc, List.singleton_append, List.reverse_cons,
        List.reverse_append, List.reverse_nil, List.nil_append, List.cons_append] using whole

end Within

/-- The scan stands where a bracket may begin. -/
inductive Opens (steps : List Step) : State → Prop
  | settled {s : State} : Settled steps s → Opens steps s
  | descent {position first : Nat} : Opens steps ⟨position, .descent first, steps⟩

theorem Opens.step {steps : List Step} {s : State} (h : Opens steps s) :
    ∃ s', s.step '[' = .ok s' ∧ Within steps [']'] .outside [] s' := by
  cases h with
  | settled settled => exact ⟨_, settled.step rfl, .mk⟩
  | descent => exact ⟨_, rfl, .mk⟩

/-- A bracket around balanced text adds the step that the text stands for. -/
theorem Opens.bracket {steps : List Step} {s : State} (h : Opens steps s) {content : List Char}
    (balanced : Quote.Balanced content) {step : Step}
    (classified : Subscript.classify (Text.trim content) = .ok step) :
    Leads s ('[' :: (content ++ [']'])) (Settled (step :: steps)) := by
  obtain ⟨s', first, within⟩ := h.step
  refine .cons first (.append (within.balanced balanced (by simp)) ?_)
  intro _ within
  obtain ⟨last, close, settled⟩ := within.close (by simpa using classified)
  exact .cons close ⟨last, .nil last, settled⟩

/-! ## Constructs without brackets -/

theorem Settled.parent {steps : List Step} {s : State} (h : Settled steps s) :
    Leads s ['^'] (Settled (.parent :: steps)) :=
  .cons (h.step rfl) ⟨_, .nil _, .ready⟩

theorem Settled.descent {steps : List Step} {s : State} (h : Settled steps s) :
    Leads s ['.', '.'] (Opens (.descent :: steps)) :=
  .cons (h.step rfl) (.cons rfl ⟨_, .nil _, .descent⟩)

inductive InMember (steps : List Step) (token : List Char) : State → Prop
  | mk {position first : Nat} : InMember steps token ⟨position, .member first token, steps⟩

def isMember (c : Char) : Bool :=
  !isSeparator c && c ≠ ']'

theorem InMember.scan {steps : List Step} {token : List Char} {s : State}
    (h : InMember steps token s) {text : List Char} (plain : ∀ c ∈ text, isMember c = true) :
    Leads s text (InMember steps (text.reverse ++ token)) := by
  induction text generalizing s token with
  | nil => exact ⟨s, .nil s, h⟩
  | cons c rest ih =>
      have member := plain c List.mem_cons_self
      simp only [isMember, Bool.and_eq_true, Bool.not_eq_true', decide_eq_true_eq] at member
      cases h with
      | @mk position first =>
          have step : State.step ⟨position, .member first token, steps⟩ c =
              .ok ⟨position + 1, .member first (c :: token), steps⟩ := by
            show (if isSeparator c = true then _ else if c = ']' then _ else _) = _
            rw [if_neg (by simp [member.1]), if_neg member.2]
            rfl
          refine .cons step ?_
          rw [List.reverse_cons, List.append_assoc]
          exact ih .mk fun c mem => plain c (List.mem_cons_of_mem _ mem)

theorem InMember.settled {steps : List Step} {token : List Char} {s : State}
    (h : InMember steps token s) {step : Step}
    (member : Subscript.member token.reverse = .ok step) : Settled (step :: steps) s := by
  cases h with
  | mk => exact .member member rfl

theorem Settled.dotted {steps : List Step} {s : State} (h : Settled steps s) {token : List Char}
    (nonempty : token ≠ []) (plain : ∀ c ∈ token, isMember c = true) {step : Step}
    (member : Subscript.member token = .ok step) :
    Leads s ('.' :: token) (Settled (step :: steps)) := by
  cases token with
  | nil => exact absurd rfl nonempty
  | cons c rest =>
      have first := plain c List.mem_cons_self
      simp only [isMember, Bool.and_eq_true, Bool.not_eq_true', decide_eq_true_eq] at first
      have dot : c ≠ '.' := by
        rintro rfl
        exact absurd first.1 (by decide)
      have begins : State.step ⟨s.position + 1, .dot, steps⟩ c =
          .ok ⟨s.position + 2, .member (s.position + 1) [c], steps⟩ := by
        show (if c = '.' then _ else if isSeparator c = true then _ else
          State.beginMember _ c) = _
        rw [if_neg dot, if_neg (by simp [first.1]), State.beginMember, if_neg first.2]
        rfl
      refine .cons (h.step rfl) (.cons begins ?_)
      have inside : InMember steps [c] ⟨s.position + 2, .member (s.position + 1) [c], steps⟩ := .mk
      obtain ⟨last, scans, inMember⟩ :=
        inside.scan fun c mem => plain c (List.mem_cons_of_mem _ mem)
      exact ⟨last, scans, inMember.settled (by simpa using member)⟩

end Scan

namespace Step

theorem parse_eq_ok_iff {text : List Char} {parsed : List Step} :
    parse (String.ofList text) = .ok parsed ↔
      text.all Text.isBlank = false ∧ Scan.steps text = .ok parsed := by
  rw [parse, String.toList_ofList]
  cases text.all Text.isBlank with
  | true =>
      constructor
      · rintro ⟨⟩
      · rintro ⟨⟨⟩, _⟩
  | false =>
      show (Scan.steps text).mapError _ = _ ↔ _
      cases Scan.steps text with
      | error _ =>
          constructor
          · rintro ⟨⟩
          · rintro ⟨_, ⟨⟩⟩
      | ok steps =>
          constructor
          · intro h
            cases h
            exact ⟨rfl, rfl⟩
          · rintro ⟨_, h⟩
            cases h
            rfl

end Step

end TreePath
