/-
# Calls — the names of function steps

A function step is read from a dotted member or from a bracket.  Either way its name is not empty and has no
dot, bracket or parenthesis in it (`Callable`, `Step.callable_of_parse`).

A call is written after a dot, also in canonical paths.  There a caret ends the member, but a bracket takes
it for a character of the name.  So there are two cases, for every name that a call can have:

* without a caret, the call is read back from what is written of it (`Settled.call`);
* with a caret, what is written is no path at all (`Settled.fails_call`).

For the second, `Fails` is the counterpart of `Leads`: the scan of the text meets a flaw.  The caret ends the
member or stands where one should begin, and after a step back only another one may stand before a dot or a
bracket.  Which flaw it is depends on the name, and only that there is one matters here.
-/
import Mathlib.Data.List.DropRight
import TreePath.Proofs.Path.Canonical

namespace TreePath

/-! ## Trimmed text -/

namespace Text

theorem trimRight_eq (text : List Char) : trimRight text = text.rdropWhile isBlank :=
  rfl

theorem mem_of_mem_trim {text : List Char} {c : Char} (mem : c ∈ trim text) : c ∈ text := by
  rw [trim, trimRight_eq] at mem
  exact (List.dropWhile_sublist _).subset ((List.rdropWhile_prefix isBlank _).subset mem)

theorem isBlank_of_head?_trim {text : List Char} {c : Char} (head : (trim text).head? = some c) :
    isBlank c = false := by
  obtain ⟨more, whole⟩ := List.rdropWhile_prefix isBlank (text.dropWhile isBlank)
  have first : (text.dropWhile isBlank).head? = some c := by
    rw [← whole, ← trimRight_eq]
    show (trim text ++ more).head? = some c
    rw [List.head?_append, head]
    rfl
  have notBlank := List.head?_dropWhile_not isBlank text
  rw [first] at notBlank
  simpa using notBlank

theorem trim_ne_nil {text : List Char} {c : Char} (head : text.head? = some c)
    (notBlank : isBlank c = false) : trim text ≠ [] := by
  intro empty
  have kept : text.dropWhile isBlank = text := by
    refine dropWhile_isBlank ?_
    intro d head'
    rw [head] at head'
    cases head'
    exact notBlank
  rw [trim, kept, trimRight_eq, List.rdropWhile_eq_nil_iff] at empty
  have blank := empty c (List.mem_of_head? head)
  rw [notBlank] at blank
  cases blank

end Text

/-! ## Names that are read -/

/-- A name that a function step can have. -/
structure Callable (name : List Char) : Prop where
  nonempty : name ≠ []
  plain : ∀ c ∈ name, c ∉ ['.', '[', ']', '(', ')']

namespace Subscript

theorem callable_of_member {token : List Char} (plain : ∀ c ∈ token, Scan.isMember c = true)
    {name : String} (h : member token = .ok (.function name)) : Callable name.toList := by
  rw [member] at h
  split at h
  · cases h
  split at h
  · cases h
  split at h
  · rename_i found
    split at h
    · cases h
    · rename_i accepted
      cases h
      rw [List.isSuffixOf?_eq_some_iff_append_eq] at found
      subst found
      simp only [Bool.or_eq_true, not_or, Bool.not_eq_true, List.isEmpty_eq_false_iff,
        List.any_eq_false] at accepted
      rw [String.toList_ofList]
      refine ⟨accepted.1, ?_⟩
      intro c mem
      have parentheses := accepted.2 c mem
      have separators := plain c (List.mem_append_left _ mem)
      simp only [Scan.isMember, Scan.isSeparator, Bool.and_eq_true, Bool.not_eq_true',
        Bool.or_eq_false_iff, decide_eq_false_iff_not, decide_eq_true_eq] at separators
      simp only [decide_eq_false_iff_not, List.mem_cons, List.not_mem_nil, or_false,
        not_or] at parentheses
      simp [separators, parentheses]
  · split at h
    · cases h
    · cases h

theorem selector_ne_function {content : List Char} {name : String} :
    selector content ≠ .ok (.function name) := by
  intro h
  rw [selector] at h
  split at h
  · obtain ⟨_, _, ⟨⟩⟩ := map_eq_ok_iff.mp h
  · split at h
    · obtain ⟨_, _, ⟨⟩⟩ := map_eq_ok_iff.mp h
    · obtain ⟨_, _, ⟨⟩⟩ := map_eq_ok_iff.mp h

theorem callable_of_classify {content : List Char} {name : String}
    (h : classify (Text.trim content) = .ok (.function name)) : Callable name.toList := by
  generalize trimmed : Text.trim content = text at h
  rw [classify] at h
  split at h
  · cases h
  split at h
  · cases h
  split at h
  · cases h
  split at h
  · cases h
  split at h
  · rename_i called found
    cases h
    rw [String.toList_ofList]
    obtain ⟨suffix, accepted⟩ := Option.filter_eq_some_iff.mp found
    rw [List.isSuffixOf?_eq_some_iff_append_eq] at suffix
    simp only [Bool.and_eq_true, Bool.not_eq_true', List.isEmpty_eq_false_iff,
      List.any_eq_false] at accepted
    obtain ⟨nonempty, plain⟩ := accepted
    constructor
    · obtain ⟨c, rest, eq⟩ := List.exists_cons_of_ne_nil nonempty
      have head : (Text.trim content).head? = some c := by
        rw [trimmed, ← suffix, eq]
        rfl
      exact Text.trim_ne_nil (by rw [eq]; rfl) (Text.isBlank_of_head?_trim head)
    · intro c mem
      have accepted := plain c (Text.mem_of_mem_trim mem)
      simp only [decide_eq_true_eq, List.mem_cons, List.not_mem_nil, or_false, not_or] at accepted
      simp [accepted]
  split at h
  · cases h
  · exact absurd h selector_ne_function

end Subscript

theorem Step.callable_of_parse {expression : String} {steps : List Step}
    (parsed : parse expression = .ok steps) {name : String} (mem : .function name ∈ steps) :
    Callable name.toList := by
  obtain ⟨added, front, each⟩ := exists_produced_of_parse parsed
  have produced : Scan.Produced (.function name) := by
    rcases front with rfl | rfl
    · exact each _ mem
    · exact each _ ((List.mem_cons.mp mem).resolve_left (by rintro ⟨⟩))
  cases produced with
  | bracket classified => exact Subscript.callable_of_classify classified
  | member plain member => exact Subscript.callable_of_member plain member

/-! ## Calls that are written -/

namespace Scan

def Fails (s : State) (text : List Char) : Prop :=
  ∃ failure, text.foldlM State.step s = .error failure

theorem Fails.first {s : State} {c : Char} {failure : Failure} (first : s.step c = .error failure)
    (rest : List Char) : Fails s (c :: rest) := by
  refine ⟨failure, ?_⟩
  rw [List.foldlM_cons, first]
  rfl

theorem Fails.cons {s mid : State} {c : Char} {rest : List Char} (first : s.step c = .ok mid)
    (others : Fails mid rest) : Fails s (c :: rest) := by
  obtain ⟨failure, flawed⟩ := others
  refine ⟨failure, ?_⟩
  rw [List.foldlM_cons, first]
  exact flawed

theorem Leads.fails {s : State} {a b : List Char} {mid : State → Prop} (ha : Leads s a mid)
    (hb : ∀ s', mid s' → Fails s' b) : Fails s (a ++ b) := by
  obtain ⟨s', scans, reached⟩ := ha
  obtain ⟨failure, flawed⟩ := hb s' reached
  have scans : a.foldlM State.step s = .ok s' := scans
  refine ⟨failure, ?_⟩
  rw [List.foldlM_append, scans]
  exact flawed

/-- A call after a dot is read back if its name has no caret. -/
theorem Settled.call {steps : List Step} {s : State} (h : Settled steps s) {name : List Char}
    (callable : Callable name) (plain : '^' ∉ name) :
    Leads s ('.' :: (name ++ ['(', ')'])) (Settled (.function (String.ofList name) :: steps)) := by
  refine h.dotted (by simp) ?_ (Subscript.member_call callable.nonempty ?_)
  · intro c mem
    rcases List.mem_append.mp mem with mem | mem
    · have allowed := callable.plain c mem
      have caret : c ≠ '^' := by
        rintro rfl
        exact plain mem
      simp only [List.mem_cons, List.not_mem_nil, or_false, not_or] at allowed
      simp [isMember, isSeparator, allowed, caret]
    · simp only [List.mem_cons, List.not_mem_nil, or_false] at mem
      rcases mem with rfl | rfl <;> rfl
  · intro c mem
    have allowed := callable.plain c mem
    simp only [List.mem_cons, List.not_mem_nil, or_false, not_or] at allowed
    simp [allowed]

/-- After a step back, only another one may stand before a dot or a bracket. -/
theorem fails_ready {name : List Char} (plain : ∀ c ∈ name, c ∉ ['.', '[', ']', '(', ')'])
    (position : Nat) (steps : List Step) (rest : List Char) :
    Fails ⟨position, .ready, steps⟩ (name ++ '(' :: rest) := by
  induction name generalizing position steps with
  | nil => exact .first rfl rest
  | cons c name ih =>
      have others := ih fun d mem => plain d (List.mem_cons_of_mem _ mem)
      by_cases caret : c = '^'
      · subst caret
        exact .cons rfl (others (position + 1) (.parent :: steps))
      · have allowed := plain c List.mem_cons_self
        simp only [List.mem_cons, List.not_mem_nil, or_false, not_or] at allowed
        have flawed : State.step ⟨position, .ready, steps⟩ c = .error ⟨position, .unexpected c⟩ := by
          show State.separator ⟨position, .ready, steps⟩ c = _
          rw [State.separator]
          · rfl
          all_goals simp [allowed, caret]
        exact .first flawed _

/-- A call after a dot is no path if its name has a caret: the caret ends the member, or stands where one
should begin, and what follows it does not begin a step. -/
theorem Settled.fails_call {steps : List Step} {s : State} (h : Settled steps s) {name : List Char}
    (callable : Callable name) (caret : '^' ∈ name) (rest : List Char) :
    Fails s ('.' :: (name ++ '(' :: rest)) := by
  obtain ⟨before, after, rfl, first⟩ := List.eq_append_cons_of_mem caret
  have plain := callable.plain
  have dot := h.step (c := '.') rfl
  by_cases empty : before = []
  · subst empty
    exact .cons dot (.first rfl _)
  · have inside : ∀ c ∈ before, isMember c = true ∧ c ∉ ['(', ')'] := by
      intro c mem
      have allowed := plain c (List.mem_append_left _ mem)
      have ne : c ≠ '^' := by
        rintro rfl
        exact first mem
      simp only [List.mem_cons, List.not_mem_nil, or_false, not_or] at allowed
      simp [isMember, isSeparator, allowed, ne]
    obtain ⟨step, member⟩ : ∃ step, Subscript.member before = .ok step := by
      have noCall : ['(', ')'].isSuffixOf? before = none := by
        refine Subscript.isSuffixOf?_call ?_
        intro last
        exact (inside ')' (List.mem_of_getLast? last)).2 (by simp)
      have noParentheses : before.any (· ∈ ['(', ')']) = false := by
        rw [List.any_eq_false]
        intro c mem
        simpa using (inside c mem).2
      rw [Subscript.member, if_neg (by simpa using empty), noCall]
      dsimp only
      rw [noParentheses]
      split
      · exact ⟨_, rfl⟩
      · exact ⟨_, rfl⟩
    have leads := h.dotted empty (fun c mem => (inside c mem).1) member
    have text : '.' :: (before ++ '^' :: after ++ '(' :: rest) =
        ('.' :: before) ++ '^' :: (after ++ '(' :: rest) := by
      simp
    rw [text]
    refine leads.fails ?_
    intro s' settled
    refine .cons (settled.step rfl) (fails_ready ?_ _ _ rest)
    intro c mem
    exact plain c (List.mem_append_right _ (List.mem_cons_of_mem _ mem))

theorem steps_of_fails {text : List Char} (fails : Fails .start text) :
    ∃ failure, steps text = .error failure := by
  obtain ⟨failure, flawed⟩ := fails
  refine ⟨failure, ?_⟩
  rw [steps, flawed]
  rfl

end Scan

end TreePath
