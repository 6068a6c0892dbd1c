/-
# Contents — what a path has between its brackets

Three parts of the program look for the structure of a bracket, each in a way of its own.  The scan keeps the
closers that are due, innermost first.  The search for enclosing parentheses counts parentheses only.  The
split at a separator counts all of them together.  Since each acts on what another has found, they had
better agree.

`scanners_agree` says that they do, for every bracket that is read to its end.  The content is balanced, and
so it is without the blanks at its ends; and on balanced text the two countings find what there is
(`Path/Partners`).

## The invariant

What the scan has read inside a bracket is a text in which just the brackets and parentheses that are due are
open, or such a text and the beginning of a quotation: that is `Open`.  `Reading` says it of a state of the
scan, together with where the content stands in the text that was read.  `Reading.step` keeps it for each
character, by the cases of `Turn`, and `Reading.scans` for a text.  `ReadsBracket` is a bracket that comes to
its end, and there nothing is open but the bracket itself (`ReadsBracket.closed`).
-/
import TreePath.Path.Nesting
import TreePath.Proofs.Path.Partners
import TreePath.Proofs.Path.Scanning

namespace TreePath

/-! ## Text that is read up to some character -/

namespace Quote

/-- What is open at the end of a text: brackets and parentheses with these closers, innermost first, and
perhaps a quotation. -/
inductive Open (closers : List Char) : Quote → List Char → Prop
  | outside {text : List Char} : Unclosed closers text → Open closers .outside text
  | inside {mark : Char} {before body : List Char} : Unclosed closers before → isMark mark = true →
      Inside mark body → Open closers (.inside mark) (before ++ mark :: body)
  | escaped {mark : Char} {before body : List Char} : Unclosed closers before → isMark mark = true →
      Inside mark body → Open closers (.escaped mark) (before ++ mark :: (body ++ ['\\']))

variable {closers : List Char} {quote : Quote} {text : List Char}

theorem Open.quoted (h : Open closers quote text) (quoted : quote ≠ .outside) (c : Char) :
    Open closers (quote.next c) (text ++ [c]) := by
  cases h with
  | outside => exact absurd rfl quoted
  | @inside mark before body unclosed isMark inside =>
      rw [List.append_assoc, List.cons_append, next]
      split
      · rename_i escape
        rw [escape]
        exact .escaped unclosed isMark inside
      split
      · rename_i closes
        rw [closes]
        exact .outside (unclosed.append (balanced_quoted isMark inside))
      · rename_i escape closes
        exact .inside unclosed isMark (inside.append (.plain closes escape .nil))
  | escaped unclosed isMark inside =>
      rw [List.append_assoc, List.cons_append, List.append_assoc]
      exact .inside unclosed isMark (inside.append (.escape .nil))

theorem Open.other (h : Open closers .outside text) {c : Char} (opens : ¬ (c = '(' ∨ c = '['))
    (closes : ¬ (c = ')' ∨ c = ']')) : Open closers (Quote.outside.next c) (text ++ [c]) := by
  cases h with
  | outside unclosed =>
      rw [next]
      split
      · rename_i isMark
        exact .inside unclosed isMark .nil
      · rename_i mark
        have plain : isPlain c = true := by simp_all [isPlain]
        exact .outside (unclosed.append (.plain plain .nil))

end Quote

/-! ## The scan of a bracket -/

namespace Scan

open Quote (Open)

variable {s s' : State} {first quoteAt : Nat} {closers content : List Char} {quote : Quote} {c : Char}

/-- Below the closer that ends the text, what is open is what is due. -/
theorem Turn.isOpen {text closers' : List Char} {last : Char} {quote' : Quote}
    (turn : Turn (closers ++ [last]) quote c closers' quote') (h : Open closers quote text) :
    ∃ due, closers' = due ++ [last] ∧ Open due quote' (text ++ [c]) := by
  generalize before : closers ++ [last] = all at turn
  cases turn with
  | quoted quoted => exact ⟨closers, before.symm, h.quoted quoted c⟩
  | @opening _ left right partners =>
      cases h with
      | outside unclosed =>
          exact ⟨right :: closers, by rw [← before, List.cons_append],
            .outside (unclosed.opening partners)⟩
  | closing more =>
      cases closers with
      | nil =>
          cases before
          exact absurd rfl more
      | cons right due =>
          cases before
          cases h with
          | outside unclosed => exact ⟨due, rfl, .outside unclosed.closing⟩
  | other opens closes => exact ⟨closers, before.symm, h.other opens closes⟩

theorem bracket_of_separator (taken : s.separator c = .ok s')
    (mode : s'.mode = .bracket first closers quote quoteAt content) :
    c = '[' ∧ first = s.position ∧ closers = [']'] ∧ quote = .outside ∧ content = [] := by
  simp only [State.separator] at taken
  split at taken <;> cases taken <;> cases mode
  exact ⟨rfl, rfl, rfl, rfl, rfl⟩

theorem not_bracket_of_beginMember (taken : s.beginMember c = .ok s') :
    s'.mode ≠ .bracket first closers quote quoteAt content := by
  simp only [State.beginMember] at taken
  split at taken
  · cases taken
  · cases taken
    rintro ⟨⟩

theorem bracket_of_step (taken : s.step c = .ok s')
    (mode : s'.mode = .bracket first closers quote quoteAt content) :
    c = '[' ∧ first = s.position ∧ closers = [']'] ∧ quote = .outside ∧ content = [] ∨
      ∃ closers' quote' quoteAt' content', s.mode = .bracket first closers' quote' quoteAt' content' ∧
        content = c :: content' ∧ Turn closers' quote' c closers quote := by
  obtain ⟨position, before, steps⟩ := s
  cases before with
  | start =>
      simp only [State.step] at taken
      split at taken
      · cases taken
        cases mode
      split at taken
      · exact .inl (bracket_of_separator taken mode)
      · exact absurd mode (not_bracket_of_beginMember taken)
  | root =>
      simp only [State.step] at taken
      split at taken
      · exact .inl (bracket_of_separator taken mode)
      · exact absurd mode (not_bracket_of_beginMember taken)
  | ready => exact .inl (bracket_of_separator taken mode)
  | dot =>
      simp only [State.step] at taken
      split at taken
      · cases taken
        cases mode
      split at taken
      · cases taken
      · exact absurd mode (not_bracket_of_beginMember taken)
  | descent _ =>
      simp only [State.step] at taken
      split at taken
      · cases taken
      · cases taken
      · exact .inl (bracket_of_separator taken mode)
      · exact absurd mode (not_bracket_of_beginMember taken)
  | member begun token =>
      simp only [State.step] at taken
      split at taken
      · cases pushed : State.pushAt ⟨position, .member begun token, steps⟩ begun
            (Subscript.member token.reverse) with
        | error _ =>
            rw [pushed] at taken
            cases taken
        | ok s =>
            rw [pushed] at taken
            have eq := bracket_of_separator taken mode
            rw [position_pushAt pushed] at eq
            exact .inl eq
      split at taken
      · cases taken
      · cases taken
        cases mode
  | bracket begun closers' quote' quoteAt' content' =>
      rcases inBracket_eq_ok taken with ⟨_, _, _, turn, rfl⟩ | ⟨_, _, _, _, _, rfl⟩
      · cases mode
        exact .inr ⟨_, _, _, _, rfl, rfl, turn⟩
      · cases mode

/-- The scan has read `text`.  If it is inside a bracket, then the content is what follows the character
that opens it, and what is open there is due. -/
structure Reading (text : List Char) (s : State) : Prop where
  position : s.position = text.length
  bracket : ∀ first closers quote quoteAt content,
    s.mode = .bracket first closers quote quoteAt content →
      ∃ before due, text = before ++ '[' :: content.reverse ∧ before.length = first ∧
        closers = due ++ [']'] ∧ Open due quote content.reverse

theorem reading_start : Reading [] .start where
  position := rfl
  bracket := by
    rintro _ _ _ _ _ ⟨⟩

theorem Reading.step {text : List Char} (h : Reading text s) (taken : s.step c = .ok s') :
    Reading (text ++ [c]) s' where
  position := by
    rw [position_step taken, h.position, List.length_append, List.length_singleton]
  bracket := by
    intro first closers quote quoteAt content mode
    rcases bracket_of_step taken mode with begins | ⟨_, _, _, _, within, rfl, turn⟩
    · obtain ⟨rfl, rfl, rfl, rfl, rfl⟩ := begins
      exact ⟨text, [], rfl, h.position.symm, rfl, .outside (.balanced .nil)⟩
    · obtain ⟨before, due, rfl, length, rfl, isOpen⟩ := h.bracket _ _ _ _ _ within
      obtain ⟨due', rfl, isOpen⟩ := turn.isOpen isOpen
      refine ⟨before, due', ?_, length, rfl, ?_⟩
      · rw [List.reverse_cons, List.append_assoc, List.cons_append]
      · rw [List.reverse_cons]
        exact isOpen

theorem Reading.scans {text more : List Char} (h : Reading text s) (scans : Scans s more s') :
    Reading (text ++ more) s' := by
  induction more generalizing s text with
  | nil =>
      cases scans
      rwa [List.append_nil]
  | cons c rest ih =>
      obtain ⟨mid, first, others⟩ := scans_cons_iff.mp scans
      rw [List.append_cons]
      exact ih (h.step first) others

/-! ## Brackets that are read to their end -/

/-- The bracket of the expression that begins at a position is read to its end: the scan is inside that
bracket, with this content, and the next character ends it and adds a step. -/
inductive ReadsBracket (expression : List Char) (first : Nat) (content : List Char) (step : Step) :
    Prop
  | mk {before after closers : List Char} {c : Char} {quote : Quote}
      {position position' quoteAt : Nat} {steps : List Step} : expression = before ++ c :: after →
      Scans .start before ⟨position, .bracket first closers quote quoteAt content.reverse, steps⟩ →
      State.step ⟨position, .bracket first closers quote quoteAt content.reverse, steps⟩ c =
        .ok ⟨position', .ready, step :: steps⟩ →
      ReadsBracket expression first content step

variable {expression text : List Char} {step : Step}

theorem ReadsBracket.closed (reads : ReadsBracket expression first text step) :
    (∃ before after, expression = before ++ '[' :: (text ++ ']' :: after) ∧ before.length = first) ∧
      Subscript.classify (Text.trim text) = .ok step ∧ Quote.Balanced text := by
  cases reads with
  | @mk front after closers c quote _ _ _ _ eq scans taken =>
      have reading := reading_start.scans scans
      rw [List.nil_append] at reading
      obtain ⟨before, due, rfl, length, rfl, isOpen⟩ := reading.bracket _ _ _ _ _ rfl
      rcases inBracket_eq_ok taken with
        ⟨_, _, _, _, collected⟩ | ⟨rfl, due_eq, _, _, classified, ended⟩
      · cases collected
      · cases due with
        | nil =>
            cases due_eq
            cases ended
            rw [List.reverse_reverse] at eq classified isOpen
            refine ⟨⟨before, after, ?_, length⟩, classified, ?_⟩
            · rw [eq, List.append_assoc, List.cons_append]
            · cases isOpen with
              | outside unclosed =>
                  cases unclosed with
                  | balanced balanced => exact balanced
        | cons _ others => simp at due_eq

/-- **The scan of a bracket, the search for enclosing parentheses and the split at a separator agree.**  If
a bracket is read to its end, then its content, without the blanks at its ends, is balanced.  It is enclosed
just if it begins with a parenthesis whose partner, of which there is one, is its last character.  The parts
of a split at commas or colons, joined again, are the content; each is balanced and has no separator in it
that nothing is around; and wherever the split comes to a closer, something is open. -/
theorem scanners_agree (reads : ReadsBracket expression first text step) :
    (∃ before after, expression = before ++ '[' :: (text ++ ']' :: after) ∧ before.length = first) ∧
      Subscript.classify (Text.trim text) = .ok step ∧
      Quote.Balanced (Text.trim text) ∧
      (∀ body,
        Quote.enclosed? (Text.trim text) = some body ↔ Quote.Partnered (Text.trim text) body []) ∧
      ((Text.trim text).head? = some '(' →
        ∃! partner : List Char × List Char, Quote.Partnered (Text.trim text) partner.1 partner.2) ∧
      ∀ separator ∈ [',', ':'],
        Quote.Parts separator (Text.trim text)
            (Quote.splitOutside separator .outside 0 (Text.trim text)) ∧
          Quote.Checked separator .outside 0 (Text.trim text) := by
  obtain ⟨place, classified, whole⟩ := reads.closed
  have balanced := whole.trim
  refine ⟨place, classified, balanced, fun _ => balanced.enclosed?_eq_some_iff, ?_, ?_⟩
  · intro head
    obtain ⟨body, rest, partnered⟩ := balanced.exists_partnered head
    refine ⟨(body, rest), partnered, ?_⟩
    rintro ⟨body', rest'⟩ partnered'
    obtain ⟨rfl, rfl⟩ := partnered.unique partnered'
    rfl
  · intro separator mem
    have all_plain : [',', ':'].all Quote.isPlain = true := by decide
    have plain := List.all_eq_true.mp all_plain separator mem
    exact ⟨balanced.parts plain, balanced.checked plain⟩

/-- Separators, brackets and parentheses in quotes are text of the names. -/
theorem scanners_agree_quoted :
    let expression := "$[ 'a,(' , \"b]:\" ].c".toList
    let content := " 'a,(' , \"b]:\" ".toList
    ReadsBracket expression 1 content (.propertyList [.name "a,(", .name "b]:"]) ∧
      Quote.splitOutside ',' .outside 0 (Text.trim content) = ["'a,(' ".toList, " \"b]:\"".toList] ∧
      Quote.Parts ',' (Text.trim content) ["'a,(' ".toList, " \"b]:\"".toList] ∧
      Quote.splitOutside ':' .outside 0 (Text.trim content) = [Text.trim content] ∧
      Quote.Checked ':' .outside 0 (Text.trim content) := by
  intro expression content
  have scans : Scans .start "$[ 'a,(' , \"b]:\" ".toList
      ⟨17, .bracket 1 [']'] .outside 11 content.reverse, [.root]⟩ := by rfl
  have ends : expression = "$[ 'a,(' , \"b]:\" ".toList ++ ']' :: ".c".toList := by rfl
  have closes : State.step ⟨17, .bracket 1 [']'] .outside 11 content.reverse, [.root]⟩ ']' =
      .ok ⟨18, .ready, [.propertyList [.name "a,(", .name "b]:"], .root]⟩ := by decide +kernel
  have reads : ReadsBracket expression 1 content (.propertyList [.name "a,(", .name "b]:"]) :=
    .mk ends scans closes
  obtain ⟨_, _, _, _, _, separators⟩ := scanners_agree reads
  have parts : Quote.splitOutside ',' .outside 0 (Text.trim content) =
      ["'a,(' ".toList, " \"b]:\"".toList] := by rfl
  exact ⟨reads, parts, parts ▸ (separators ',' (by decide)).1, rfl, (separators ':' (by decide)).2⟩

end Scan

end TreePath
