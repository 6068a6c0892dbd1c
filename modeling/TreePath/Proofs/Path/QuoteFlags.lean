/-
# Quote flags — quoted text tracked by two flags

Two loops over a text pass over quoted text: the search for the partner of a parenthesis, and the split at
a separator.  In `Path/Quote` they are recursions on the text that share one automaton.  Here they are loops
with a state in flags: the quotation mark that is open, if one is, whether a backslash was just met, and how
many brackets and parentheses are open.  The split moreover keeps the position where the present part began,
and cuts the parts out of the text.

`Stands` says which position of the automaton and which depth the flags stand for.  The flag for the
backslash is never set outside quotes, so there is no fourth kind of flags.  Each of the two loops keeps the
relation, character by character:

* `enclosed?_eq_enclosedByFlags?` for the text between a parenthesis and its partner at the end;
* `splitOutside_eq_splitByFlags` for the split, at every separator that is no quotation mark.  The parts that
  the loop has cut off, and the one it is in, are what the recursion returns (`foldl_cut`).
-/
import TreePath.Proofs.Path.Indices
import TreePath.Proofs.Path.Partners

namespace TreePath

namespace Quote

open Scan.Indexed

/-- What a loop over a text knows of quotes and nesting. -/
structure Flags where
  quote : Option Char
  escaped : Bool
  depth : Nat

namespace Flags

def start : Flags :=
  ⟨none, false, 0⟩

/-- Takes a character of quoted text. -/
def quoted (s : Flags) (mark c : Char) : Flags :=
  if s.escaped then { s with escaped := false }
  else if c = '\\' then { s with escaped := true }
  else if c = mark then { s with quote := none }
  else s

/-- The flags stand for a position of the automaton, at a depth. -/
inductive Stands (depth : Nat) : Flags → Quote → Prop
  | outside : Stands depth ⟨none, false, depth⟩ .outside
  | inside {mark : Char} : Stands depth ⟨some mark, false, depth⟩ (.inside mark)
  | escaped {mark : Char} : Stands depth ⟨some mark, true, depth⟩ (.escaped mark)

theorem Stands.quoted {depth : Nat} {s : Flags} {quote : Quote} (stands : Stands depth s quote)
    {mark : Char} (opened : s.quote = some mark) (c : Char) :
    quote ≠ .outside ∧ Stands depth (s.quoted mark c) (quote.next c) := by
  cases stands with
  | outside => cases opened
  | inside =>
      cases opened
      refine ⟨by simp, ?_⟩
      rw [Flags.quoted, next, if_neg (by simp)]
      split
      · exact .escaped
      split
      · exact .outside
      · exact .inside
  | escaped =>
      cases opened
      exact ⟨by simp, .inside⟩

theorem Stands.unquoted {depth : Nat} {s : Flags} {quote : Quote} (stands : Stands depth s quote)
    (closed : s.quote = none) : quote = .outside ∧ s = ⟨none, false, depth⟩ := by
  cases stands with
  | outside => exact ⟨rfl, rfl⟩
  | inside => cases closed
  | escaped => cases closed

/-! ## Parentheses -/

/-- Takes a character, unless it closes a parenthesis and none is open. -/
def parenthesis (s : Flags) (c : Char) : Option Flags :=
  match s.quote with
  | some mark => some (s.quoted mark c)
  | none =>
    if isMark c then some { s with quote := some c }
    else if c = '(' then some { s with depth := s.depth + 1 }
    else if c = ')' then if s.depth = 0 then none else some { s with depth := s.depth - 1 }
    else some s

theorem closesParentheses_eq {text : List Char} {depth : Nat} {s : Flags} {quote : Quote}
    (stands : Stands depth s quote) :
    closesParentheses quote depth text =
      (text.foldlM parenthesis s).any fun last => last.depth = 0 := by
  induction text generalizing depth s quote with
  | nil => cases stands <;> rfl
  | cons c rest ih =>
      rw [List.foldlM_cons, parenthesis]
      cases opened : s.quote with
      | some mark =>
          obtain ⟨inside, stands⟩ := stands.quoted opened c
          rw [closesParentheses_quoted inside]
          exact ih stands
      | none =>
          obtain ⟨rfl, rfl⟩ := stands.unquoted opened
          by_cases mark : isMark c = true
          · obtain ⟨opens, closes⟩ := unnested_of_isMark mark
            rw [closesParentheses_other (fun eq => opens (.inl eq)) fun eq => closes (.inl eq), next,
              if_pos mark, if_pos mark]
            exact ih .inside
          by_cases opening : c = '('
          · subst opening
            exact ih .outside
          by_cases closing : c = ')'
          · subst closing
            cases depth with
            | zero => rfl
            | succ depth => exact ih .outside
          rw [closesParentheses_other opening closing, next, if_neg mark, if_neg mark, if_neg opening,
            if_neg closing]
          exact ih .outside

end Flags

open Flags

/-- The text between a parenthesis at the start and its partner at the end. -/
def enclosedByFlags? (text : List Char) : Option (List Char) :=
  match text with
  | '(' :: rest =>
    ([')'].isSuffixOf? rest).bind fun body =>
      (body.foldlM parenthesis Flags.start).bind fun last => if last.depth = 0 then some body else none
  | _ => none

theorem enclosed?_eq_enclosedByFlags? (text : List Char) : enclosed? text = enclosedByFlags? text := by
  rw [enclosed?.eq_def]
  split
  · rename_i rest
    rw [enclosedByFlags?]
    cases [')'].isSuffixOf? rest with
    | none => rfl
    | some body =>
        rw [Option.filter_some, closesParentheses_eq .outside]
        show _ = (body.foldlM parenthesis Flags.start).bind _
        rw [Flags.start]
        cases body.foldlM parenthesis ⟨none, false, 0⟩ with
        | none => rfl
        | some last =>
            simp only [Option.any_some, Option.bind_some, decide_eq_true_eq]
  · rename_i other
    rw [enclosedByFlags?]
    exact other

/-! ## Parts -/

/-- The state of the split: the flags, where the present part began, and the parts before it, the last
first. -/
structure Cut where
  flags : Flags
  first : Nat
  parts : List (List Char)

/-- Takes the character at a position. -/
def Cut.step (separator : Char) (text : List Char) (s : Cut) : Char × Nat → Cut
  | (c, i) =>
    match s.flags.quote with
    | some mark => { s with flags := s.flags.quoted mark c }
    | none =>
      if isMark c then { s with flags := { s.flags with quote := some c } }
      else if c = '(' ∨ c = '[' then { s with flags := { s.flags with depth := s.flags.depth + 1 } }
      else if c = ')' ∨ c = ']' then { s with flags := { s.flags with depth := s.flags.depth - 1 } }
      else if c = separator ∧ s.flags.depth = 0 then
        ⟨s.flags, i + 1, between text s.first i :: s.parts⟩
      else s

/-- The parts, when the text is at its end. -/
def Cut.finish (text : List Char) (s : Cut) : List (List Char) :=
  (text.drop s.first :: s.parts).reverse

/-- Splits a text at a separator outside quotes, brackets and parentheses. -/
def splitByFlags (separator : Char) (text : List Char) : List (List Char) :=
  (text.zipIdx.foldl (Cut.step separator text) ⟨Flags.start, 0, []⟩).finish text

variable {separator : Char} {text : List Char}

/-- A character that is passed over goes to the present part. -/
theorem prependFirst_between {first i : Nat} {c : Char} (le : first ≤ i) (found : text[i]? = some c)
    (parts : List (List Char)) :
    prependFirst (between text first (i + 1)) parts =
      prependFirst (between text first i) (consFirst c parts) := by
  rw [between_succ le found, prependFirst_append]
  rfl

/-- From a position on, the loop goes on with the present part and cuts the rest as the recursion does. -/
theorem foldl_cut (notMark : isMark separator = false) {rest : List Char} {i : Nat}
    (left : text.drop i = rest) (s : Cut) {depth : Nat} {quote : Quote}
    (stands : Stands depth s.flags quote) (le : s.first ≤ i) :
    ((rest.zipIdx i).foldl (Cut.step separator text) s).finish text =
      s.parts.reverse ++
        prependFirst (between text s.first i) (splitOutside separator quote depth rest) := by
  induction rest generalizing i s depth quote with
  | nil =>
      have all : between text s.first i = text.drop s.first := by
        have beyond : text.length ≤ i := List.drop_eq_nil_iff.mp left
        rw [between, List.take_of_length_le]
        rw [List.length_drop]
        omega
      show (text.drop s.first :: s.parts).reverse = _
      rw [List.reverse_cons, splitOutside, prependFirst_cons, List.append_nil, all]
  | cons c rest ih =>
      have found : text[i]? = some c := by
        rw [← List.head?_drop, left]
        rfl
      have left' : text.drop (i + 1) = rest := by
        rw [drop_eq_cons found] at left
        exact (List.cons.inj left).2
      rw [List.zipIdx_cons, List.foldl_cons, Cut.step]
      cases opened : s.flags.quote with
      | some mark =>
          obtain ⟨inside, stands⟩ := stands.quoted opened c
          rw [splitOutside, if_neg inside, ← prependFirst_between le found]
          exact ih left' _ stands (Nat.le_succ_of_le le)
      | none =>
          obtain ⟨rfl, flags⟩ := stands.unquoted opened
          obtain ⟨_, first, parts⟩ := s
          subst flags
          dsimp only at le ⊢
          by_cases mark : isMark c = true
          · obtain ⟨opens, closes⟩ := unnested_of_isMark mark
            have ne : c ≠ separator := by
              rintro rfl
              rw [mark] at notMark
              cases notMark
            rw [if_pos mark, splitOutside, if_pos rfl, if_neg opens, if_neg closes,
              if_neg fun h => ne h.1, next, if_pos mark, ← prependFirst_between le found]
            exact ih left' _ .inside (Nat.le_succ_of_le le)
          rw [if_neg mark]
          by_cases opens : c = '(' ∨ c = '['
          · rw [if_pos opens, splitOutside, if_pos rfl, if_pos opens, ← prependFirst_between le found]
            exact ih left' _ .outside (Nat.le_succ_of_le le)
          rw [if_neg opens]
          by_cases closes : c = ')' ∨ c = ']'
          · rw [if_pos closes, splitOutside, if_pos rfl, if_neg opens, if_pos closes,
              ← prependFirst_between le found]
            exact ih left' _ .outside (Nat.le_succ_of_le le)
          rw [if_neg closes, splitOutside, if_pos rfl, if_neg opens, if_neg closes]
          by_cases cuts : c = separator ∧ depth = 0
          · obtain ⟨rfl, rfl⟩ := cuts
            rw [if_pos ⟨rfl, rfl⟩, if_pos ⟨rfl, rfl⟩, prependFirst_cons, List.append_nil]
            have others := ih left' ⟨⟨none, false, 0⟩, i + 1, between text first i :: parts⟩ .outside
              (Nat.le_refl (i + 1))
            rw [between_self, List.reverse_cons, List.append_assoc] at others
            exact others
          · rw [if_neg cuts, if_neg cuts, next, if_neg mark, ← prependFirst_between le found]
            exact ih left' _ .outside (Nat.le_succ_of_le le)

theorem splitOutside_eq_splitByFlags (notMark : isMark separator = false) (text : List Char) :
    splitOutside separator .outside 0 text = splitByFlags separator text := by
  have all : text.drop 0 = text := rfl
  have whole := foldl_cut notMark all ⟨Flags.start, 0, []⟩ .outside (Nat.le_refl 0)
  rw [between_self] at whole
  exact whole.symm

end Quote

end TreePath
