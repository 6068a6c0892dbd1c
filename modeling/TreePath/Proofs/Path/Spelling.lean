/-
# Spelling — paths written out step by step

A spelling fixes how each step is written: a position in decimal, a name in single quotes or as a string of a
document, a list of these, a slice, a call, and a sub-path by a spelling of its own, to any depth.  It has a
text and steps.  `parse_texts` says that the text is read as the steps, for all spellings: whatever the names,
positions, bounds and sub-paths.

Only spelled steps that may stand where they do can be built.  A sub-path begins as a path from the root does
(`Leading`), two dots stand in front of a bracket, and a position carries the proof that it is below the
bound.  So no condition is left on the theorem.

The proofs are mutual inductions over `Bracketed`, `Leading` and `Spelling`:

1. spelled text is balanced, so that the brackets around it are found;
2. it ends in no blank, so that trimming leaves it as it is;
3. its content is classified as the step, and the scan adds that step.
-/
import TreePath.Proofs.Path.Scanning
import TreePath.Proofs.Path.Subscripts

namespace TreePath

/-- How a key is written. -/
inductive KeySpelling where
  | decimal (position : Nat) (fits : position < Key.positionBound)
  /-- A name in single quotes. -/
  | single (name : String)
  /-- A name as a string of a document. -/
  | double (name : String)

namespace KeySpelling

def key : KeySpelling → Key
  | decimal position _ => .index position
  | single name => .name name
  | double name => .name name

def text : KeySpelling → List Char
  | decimal position _ => Nat.toDigits 10 position
  | single name => (Label.quoteName name).toList
  | double name => (Json.writeString name).toList

theorem denotes (k : KeySpelling) : Subscript.Denotes k.text k.key := by
  cases k with
  | decimal position fits => exact Subscript.denotes_decimal fits
  | single name => exact Subscript.denotes_quoteName name
  | double name => exact Subscript.denotes_writeString name

end KeySpelling

/-- The name of a call after a dot. -/
structure CallName where
  text : List Char
  nonempty : text ≠ []
  plain : ∀ c ∈ text, c ∉ ['.', '[', ']', '(', ')', '^', '\'', '"']

mutual

/-- A step written between brackets. -/
inductive Bracketed where
  | wildcard
  | property (key : KeySpelling)
  | propertyList (first second : KeySpelling) (others : List KeySpelling)
  | slice (slice : Slice) (fits : slice.Fits)
  | subPath (first : Leading) (others : List Spelling)

/-- What may stand at the start of a sub-path; two dots stand in front of a bracket. -/
inductive Leading where
  | bracketed (step : Bracketed)
  | call (name : CallName)
  | descent (step : Bracketed)

/-- What may stand after a complete step. -/
inductive Spelling where
  | leading (step : Leading)
  | parent

end

/-! ## Texts -/

mutual

/-- The text between the brackets. -/
def Bracketed.content : Bracketed → List Char
  | .wildcard => ['*']
  | .property key => key.text
  | .propertyList first second others =>
    Subscript.join first.text ((second :: others).map KeySpelling.text)
  | .slice s _ => s.text.toList
  | .subPath first others => '$' :: (first.text ++ Spelling.texts others)

def Leading.text : Leading → List Char
  | .bracketed step => '[' :: (step.content ++ [']'])
  | .call name => '.' :: (name.text ++ ['(', ')'])
  | .descent step => '.' :: '.' :: '[' :: (step.content ++ [']'])

def Spelling.text : Spelling → List Char
  | .leading step => step.text
  | .parent => ['^']

def Spelling.texts : List Spelling → List Char
  | [] => []
  | spelling :: rest => spelling.text ++ Spelling.texts rest

end

example : String.ofList (Spelling.texts
    [.leading (.bracketed (.propertyList (.single "it's") (.double "a\tb") [])), .parent,
      .leading (.descent (.subPath (.call ⟨['f'], by simp, by simp⟩) [.parent]))]) =
    "['it\\'s',\"a\\tb\"]^..[$.f()^]" := by
  decide

/-! ## Steps -/

/-- The step that is written; a sub-path keeps its text. -/
def Bracketed.step : Bracketed → Step
  | .wildcard => .wildcard
  | .property key => .property key.key
  | .propertyList first second others =>
    .propertyList ((first :: second :: others).map KeySpelling.key)
  | .slice s _ => .slice s
  | .subPath first others => .subPath (String.ofList (Bracketed.subPath first others).content)

def Leading.steps : Leading → List Step
  | .bracketed step => [step.step]
  | .call name => [.function (String.ofList name.text)]
  | .descent step => [.descent, step.step]

def Spelling.steps : Spelling → List Step
  | .leading step => step.steps
  | .parent => [.parent]

/-! ## Spelled text is balanced -/

theorem CallName.isPlain (name : CallName) {c : Char} (mem : c ∈ name.text) :
    Quote.isPlain c = true := by
  have plain := name.plain c mem
  simp only [List.mem_cons, List.not_mem_nil, or_false, not_or] at plain
  obtain ⟨_, left, right, left', right', _, single, double⟩ := plain
  simp [Quote.isPlain, Quote.isMark, *]

mutual

theorem Bracketed.balanced : (b : Bracketed) → Quote.Balanced b.content
  | .wildcard => .plain rfl .nil
  | .property key => key.denotes.balanced
  | .propertyList first second others =>
    Subscript.balanced_join KeySpelling.denotes first (second :: others)
  | .slice s _ => Quote.balanced_of_plain fun _ => Subscript.isPlain_of_mem_text
  | .subPath first others => by
    rw [Bracketed.content]
    exact .plain rfl (first.balanced.append (Spelling.balanced_texts others))

theorem Leading.balanced : (l : Leading) → Quote.Balanced l.text
  | .bracketed step => by
    rw [Leading.text]
    exact .nested .bracket step.balanced .nil
  | .call name => by
    rw [Leading.text]
    have parentheses : Quote.Balanced ['(', ')'] := .nested .parenthesis .nil .nil
    exact .plain rfl ((Quote.balanced_of_plain fun _ => name.isPlain).append parentheses)
  | .descent step => by
    rw [Leading.text]
    exact .plain rfl (.plain rfl (.nested .bracket step.balanced .nil))

theorem Spelling.balanced : (e : Spelling) → Quote.Balanced e.text
  | .leading step => by
    rw [Spelling.text]
    exact step.balanced
  | .parent => .plain rfl .nil

theorem Spelling.balanced_texts : (path : List Spelling) → Quote.Balanced (Spelling.texts path)
  | [] => .nil
  | e :: rest => by
    rw [Spelling.texts]
    exact e.balanced.append (Spelling.balanced_texts rest)

end

/-! ## Spelled steps are read back -/

/-- The text after the root of a sub-path begins with a dot or a bracket. -/
theorem Leading.head (l : Leading) :
    ∃ c rest, l.text = c :: rest ∧ (c = '.' ∨ c = '[') := by
  cases l with
  | bracketed step => exact ⟨_, _, rfl, .inr rfl⟩
  | call name => exact ⟨_, _, rfl, .inl rfl⟩
  | descent step => exact ⟨_, _, rfl, .inl rfl⟩

/-- A text ends, and not in a blank. -/
def EndsPlain (text : List Char) : Prop :=
  ∃ c, text.getLast? = some c ∧ Text.isBlank c = false

theorem EndsPlain.append (a : List Char) {b : List Char} (h : EndsPlain b) :
    EndsPlain (a ++ b) := by
  obtain ⟨c, last, plain⟩ := h
  refine ⟨c, ?_, plain⟩
  rw [List.getLast?_append, last]
  rfl

theorem Leading.endsPlain (l : Leading) : EndsPlain l.text := by
  have bracket : EndsPlain [']'] := ⟨']', rfl, by decide⟩
  cases l with
  | bracketed step => exact bracket.append ('[' :: step.content)
  | call name =>
      have parentheses : EndsPlain ['(', ')'] := ⟨')', rfl, by decide⟩
      exact parentheses.append ('.' :: name.text)
  | descent step => exact bracket.append ('.' :: '.' :: '[' :: step.content)

theorem Spelling.endsPlain (e : Spelling) : EndsPlain e.text := by
  cases e with
  | leading step => exact step.endsPlain
  | parent => exact ⟨'^', rfl, by decide⟩

theorem Spelling.endsPlain_texts {before : List Char} (h : EndsPlain before)
    (path : List Spelling) : EndsPlain (before ++ Spelling.texts path) := by
  induction path generalizing before with
  | nil =>
      rw [Spelling.texts, List.append_nil]
      exact h
  | cons e rest ih =>
      rw [Spelling.texts, ← List.append_assoc]
      exact ih (e.endsPlain.append before)

theorem Bracketed.trimmed (b : Bracketed) : Text.Trimmed b.content := by
  cases b with
  | wildcard =>
      constructor
      · rintro _ ⟨⟩
        decide
      · rintro _ ⟨⟩
        decide
  | property key => exact key.denotes.trimmed
  | propertyList first second others =>
      exact Subscript.trimmed_join KeySpelling.denotes first (second :: others)
  | slice s fits => exact Subscript.trimmed_text s
  | subPath first others =>
      obtain ⟨c, last, plain⟩ :=
        Spelling.endsPlain_texts (first.endsPlain.append ['$']) others
      have content : (Bracketed.subPath first others).content =
          ['$'] ++ first.text ++ Spelling.texts others := rfl
      rw [content]
      constructor
      · rintro _ ⟨⟩
        decide
      · intro d last'
        rw [last] at last'
        cases last'
        exact plain

theorem Bracketed.classify (b : Bracketed) :
    Subscript.classify (Text.trim b.content) = .ok b.step := by
  rw [Text.trim_eq_self b.trimmed]
  cases b with
  | wildcard => rfl
  | property key => exact key.denotes.classify
  | propertyList first second others =>
      exact Subscript.classify_join KeySpelling.denotes first second others
  | slice s fits => exact Subscript.classify_slice fits
  | subPath first others =>
      obtain ⟨c, rest, eq, head⟩ := first.head
      rw [Bracketed.step, Bracketed.content, eq]
      exact Subscript.classify_rooted head

open Scan

theorem Bracketed.scan (b : Bracketed) {steps : List Step} {s : State} (h : Opens steps s) :
    Leads s ('[' :: (b.content ++ [']'])) (Settled (b.step :: steps)) :=
  h.bracket b.balanced b.classify

theorem Subscript.member_call {name : List Char} (nonempty : name ≠ [])
    (plain : ∀ c ∈ name, c ∉ ['(', ')']) :
    Subscript.member (name ++ ['(', ')']) = .ok (.function (String.ofList name)) := by
  have call : ['(', ')'].isSuffixOf? (name ++ ['(', ')']) = some name :=
    List.isSuffixOf?_eq_some_iff_append_eq.mpr rfl
  have wildcard : name ++ ['(', ')'] ≠ ['*'] := by
    intro same
    have := congrArg List.length same
    rw [List.length_append] at this
    cases this
  have some : name.isEmpty = false := List.isEmpty_eq_false_iff.mpr nonempty
  have parentheses : name.any (· ∈ ['(', ')']) = false := by
    rw [List.any_eq_false]
    intro c mem
    simpa using plain c mem
  rw [Subscript.member, if_neg (by simp), if_neg wildcard, call]
  dsimp only
  rw [some, parentheses]
  rfl

theorem CallName.member (name : CallName) :
    Subscript.member (name.text ++ ['(', ')']) = .ok (.function (String.ofList name.text)) := by
  refine Subscript.member_call name.nonempty ?_
  intro c mem
  have plain := name.plain c mem
  simp only [List.mem_cons, List.not_mem_nil, or_false, not_or] at plain
  simp [plain]

theorem CallName.isMember (name : CallName) {c : Char} (mem : c ∈ name.text ++ ['(', ')']) :
    isMember c = true := by
  rcases List.mem_append.mp mem with mem | mem
  · have plain := name.plain c mem
    simp only [List.mem_cons, List.not_mem_nil, or_false, not_or] at plain
    simp [Scan.isMember, isSeparator, plain]
  · simp only [List.mem_cons, List.not_mem_nil, or_false] at mem
    rcases mem with rfl | rfl <;> rfl

theorem Leading.scan (l : Leading) {steps : List Step} {s : State} (h : Settled steps s) :
    Leads s l.text (Settled (l.steps.reverse ++ steps)) := by
  cases l with
  | bracketed step => exact step.scan (.settled h)
  | call name => exact h.dotted (by simp) (fun _ => name.isMember) name.member
  | descent step =>
      exact h.descent.append fun _ opens => step.scan opens

theorem Spelling.scan (e : Spelling) {steps : List Step} {s : State} (h : Settled steps s) :
    Leads s e.text (Settled (e.steps.reverse ++ steps)) := by
  cases e with
  | leading step => exact step.scan h
  | parent => exact h.parent

theorem Spelling.scan_texts (path : List Spelling) {steps : List Step} {s : State}
    (h : Settled steps s) :
    Leads s (Spelling.texts path) (Settled ((path.flatMap Spelling.steps).reverse ++ steps)) := by
  induction path generalizing steps s with
  | nil => exact ⟨s, .nil s, h⟩
  | cons e rest ih =>
      rw [Spelling.texts, List.flatMap_cons, List.reverse_append, List.append_assoc]
      exact (e.scan h).append fun _ settled => ih settled

theorem Scan.not_blank_root (rest : List Char) : ('$' :: rest).all Text.isBlank = false := by
  have root : Text.isBlank '$' = false := by decide
  rw [List.all_cons, root, Bool.false_and]

theorem Scan.steps_texts (path : List Spelling) :
    Scan.steps ('$' :: Spelling.texts path) = .ok (.root :: path.flatMap Spelling.steps) := by
  have root : Settled [.root] ⟨1, .root, [.root]⟩ := .root
  obtain ⟨s, scans, settled⟩ := Spelling.scan_texts path root
  refine steps_eq_ok_iff.mpr ⟨s, .cons rfl scans, ?_⟩
  rw [settled.finish]
  simp

namespace Step

/-- A spelled path from the root is read as the root and its steps, whatever the names, positions,
bounds and sub-paths. -/
theorem parse_texts (path : List Spelling) :
    parse (String.ofList ('$' :: Spelling.texts path)) =
      .ok (.root :: path.flatMap Spelling.steps) := by
  exact parse_eq_ok_iff.mpr ⟨Scan.not_blank_root _, Scan.steps_texts path⟩

end Step

end TreePath
