/-
# Nesting — a sub-path is shorter than the path around it

The text of a sub-path step is the content of a bracket, with blanks at its ends taken off.  So it is shorter
than the path, by the two brackets at least, and paths within paths end: the compiler recurses on this
measure, for which `Step.length_subPath_lt` is proved here beside the definitions.

The invariant is `Shorter`: every sub-path among the steps, and the content that is collected in an open
bracket, is shorter than what was scanned.  There is one lemma for each way in which the scan moves
(`Shorter.separator`, `Shorter.beginMember`, `Shorter.inBracket`), and `Shorter.step` puts them together.
Only the end of a bracket makes a sub-path step, and there the content is what the invariant bounds.

`position_step` says that each character moves the scan by one position, whatever it is.
-/
import TreePath.Path.Scan

namespace TreePath.Scan

/-- Sub-paths and the content of the open bracket are shorter than what was scanned. -/
structure Shorter (s : State) : Prop where
  subPath : ∀ text, .subPath text ∈ s.steps → text.toList.length < s.position
  content : ∀ first closers quote quoteAt content,
    s.mode = .bracket first closers quote quoteAt content → content.length < s.position

theorem length_trimRight_le (text : List Char) :
    (Text.trimRight text).length ≤ text.length := by
  have := (List.dropWhile_sublist (l := text.reverse) Text.isBlank).length_le
  simpa [Text.trimRight] using this

theorem length_trim_le (text : List Char) : (Text.trim text).length ≤ text.length :=
  Nat.le_trans (length_trimRight_le _) (List.dropWhile_sublist _).length_le

theorem member_ne_subPath {token : List Char} {text : String} :
    Subscript.member token ≠ .ok (.subPath text) := by
  unfold Subscript.member
  repeat' split
  all_goals simp

theorem selector_ne_subPath {content : List Char} {text : String} :
    Subscript.selector content ≠ .ok (.subPath text) := by
  unfold Subscript.selector
  repeat' split
  all_goals
    intro h
    simp only [Except.map] at h
    split at h <;> simp at h

theorem length_classify_le {content : List Char} {text : String}
    (h : Subscript.classify content = .ok (.subPath text)) :
    text.toList.length ≤ content.length := by
  unfold Subscript.classify at h
  split at h
  · cases h
  split at h
  · cases h
  split at h
  · cases h
  split at h
  · cases h
  split at h
  · cases h
  split at h
  · cases h
    simp
  · exact absurd h selector_ne_subPath

theorem Shorter.go {s : State} (h : Shorter s) {mode : Mode}
    (content : ∀ first closers quote quoteAt content,
      mode = .bracket first closers quote quoteAt content → content.length ≤ s.position) :
    Shorter (s.go mode) where
  subPath text mem := Nat.lt_succ_of_lt (h.subPath text mem)
  content first closers quote quoteAt c eq :=
    Nat.lt_succ_of_le (content first closers quote quoteAt c eq)

theorem Shorter.push {s : State} (h : Shorter s) {step : Step}
    (short : ∀ text, step = .subPath text → text.toList.length < s.position) :
    Shorter (s.push step) where
  subPath text mem := by
    rcases List.mem_cons.1 mem with eq | mem
    · exact short text eq.symm
    · exact h.subPath text mem
  content := h.content

theorem Shorter.pushAt {s s' : State} (h : Shorter s) {position : Nat}
    {step : Except PathFlaw Step}
    (short : ∀ text, step = .ok (.subPath text) → text.toList.length < s.position)
    (result : s.pushAt position step = .ok s') : Shorter s' := by
  unfold State.pushAt at result
  split at result
  · rw [← Except.ok.inj result]
    exact h.push fun text eq => short text (by rw [eq])
  · simp at result

theorem Shorter.separator {s s' : State} (h : Shorter s) {c : Char}
    (result : s.separator c = .ok s') : Shorter s' := by
  unfold State.separator at result
  split at result
  · rw [← Except.ok.inj result]
    exact h.go (by simp)
  · rw [← Except.ok.inj result]
    refine h.go fun _ _ _ _ content eq => ?_
    cases eq
    exact Nat.zero_le _
  · rw [← Except.ok.inj result]
    exact (h.push (by simp)).go (by simp)
  all_goals simp [State.fail] at result

theorem Shorter.beginMember {s s' : State} (h : Shorter s) {c : Char}
    (result : s.beginMember c = .ok s') : Shorter s' := by
  unfold State.beginMember at result
  split at result
  · simp [State.fail] at result
  · rw [← Except.ok.inj result]
    exact h.go (by simp)

theorem Shorter.inBracket {s s' : State} (h : Shorter s) {first : Nat} {closers : List Char}
    {quote : Quote} {quoteAt : Nat} {content : List Char} {c : Char}
    (short : content.length < s.position)
    (result : s.inBracket first closers quote quoteAt content c = .ok s') : Shorter s' := by
  have on : ∀ closers quote quoteAt,
      Shorter (s.go (.bracket first closers quote quoteAt (c :: content))) := by
    intro closers quote quoteAt
    refine h.go fun _ _ _ _ content' eq => ?_
    cases eq
    exact short
  unfold State.inBracket at result
  dsimp only at result
  split at result
  · exact Except.ok.inj result ▸ on _ _ _
  split at result
  · exact Except.ok.inj result ▸ on _ _ _
  split at result
  · exact Except.ok.inj result ▸ on _ _ _
  split at result
  · split at result
    · simp [State.fail] at result
    split at result
    · have ready : Shorter (s.go .ready) := h.go (by simp)
      refine ready.pushAt (fun text eq => ?_) result
      have := length_classify_le eq
      have := length_trim_le content.reverse
      simp only [List.length_reverse, State.go] at *
      omega
    · exact Except.ok.inj result ▸ on _ _ _
  · exact Except.ok.inj result ▸ on _ _ _

theorem Shorter.step {s s' : State} (h : Shorter s) {c : Char} (result : s.step c = .ok s') :
    Shorter s' := by
  unfold State.step at result
  split at result
  · split at result
    · rw [← Except.ok.inj result]
      exact (h.push (by simp)).go (by simp)
    split at result
    · exact h.separator result
    · exact h.beginMember result
  · split at result
    · exact h.separator result
    · exact h.beginMember result
  · exact h.separator result
  · split at result
    · rw [← Except.ok.inj result]
      exact (h.push (by simp)).go (by simp)
    split at result
    · simp [State.fail] at result
    · exact h.beginMember result
  · split at result
    · simp [State.fail] at result
    · simp [State.fail] at result
    · exact h.separator result
    · exact h.beginMember result
  · split at result
    · simp only [Except.bind] at result
      split at result
      · simp at result
      · rename_i pushed
        exact (h.pushAt (fun _ eq => absurd eq member_ne_subPath) pushed).separator result
    split at result
    · simp [State.fail] at result
    · rw [← Except.ok.inj result]
      exact h.go (by simp)
  · rename_i mode
    exact h.inBracket (h.content _ _ _ _ _ mode) result

theorem position_pushAt {s s' : State} {position : Nat} {step : Except PathFlaw Step}
    (result : s.pushAt position step = .ok s') : s'.position = s.position := by
  unfold State.pushAt at result
  split at result
  · rw [← Except.ok.inj result]
    rfl
  · simp at result

theorem position_separator {s s' : State} {c : Char} (result : s.separator c = .ok s') :
    s'.position = s.position + 1 := by
  unfold State.separator at result
  split at result
  · rw [← Except.ok.inj result]
    rfl
  · rw [← Except.ok.inj result]
    rfl
  · rw [← Except.ok.inj result]
    rfl
  all_goals simp [State.fail] at result

theorem position_beginMember {s s' : State} {c : Char} (result : s.beginMember c = .ok s') :
    s'.position = s.position + 1 := by
  unfold State.beginMember at result
  split at result
  · simp [State.fail] at result
  · rw [← Except.ok.inj result]
    rfl

theorem position_endMember {s s' : State} {position : Nat} {step : Except PathFlaw Step} {c : Char}
    (result : ((s.pushAt position step).bind fun s => s.separator c) = .ok s') :
    s'.position = s.position + 1 := by
  cases pushed : s.pushAt position step with
  | error e => simp [pushed, Except.bind] at result
  | ok next =>
    rw [pushed] at result
    rw [position_separator result, position_pushAt pushed]

/-- Each character moves the scan by one position. -/
theorem position_step {s s' : State} {c : Char} (result : s.step c = .ok s') :
    s'.position = s.position + 1 := by
  unfold State.step at result
  split at result
  case h_6 =>
    split at result
    · exact position_endMember result
    · grind [State.go, State.fail]
  all_goals
    grind [→ position_pushAt, → position_separator, → position_beginMember, State.inBracket,
      State.go, State.push, State.fail]

theorem Shorter.foldlM {s s' : State} (h : Shorter s) {text : List Char}
    (result : text.foldlM State.step s = .ok s') :
    Shorter s' ∧ s'.position = s.position + text.length := by
  induction text generalizing s with
  | nil =>
    cases result
    exact ⟨h, rfl⟩
  | cons c rest ih =>
    rw [List.foldlM_cons] at result
    cases hc : s.step c with
    | error e => rw [hc] at result; cases result
    | ok next =>
      rw [hc] at result
      obtain ⟨hs, hp⟩ := ih (h.step hc) result
      exact ⟨hs, by rw [hp, position_step hc, List.length_cons]; omega⟩

theorem subPath_of_finish {s : State} {steps : List Step} (result : s.finish = .ok steps)
    {text : String} (mem : .subPath text ∈ steps) : .subPath text ∈ s.steps := by
  unfold State.finish at result
  split at result
  case h_6 first token _ =>
    cases hp : s.pushAt first (Subscript.member token.reverse) with
    | error e => rw [hp] at result; cases result
    | ok s' =>
      rw [hp] at result
      cases result
      unfold State.pushAt at hp
      split at hp
      · rename_i step eq
        cases hp
        rcases List.mem_cons.1 (List.mem_reverse.1 mem) with rfl | mem
        · exact absurd eq member_ne_subPath
        · exact mem
      · simp at hp
  all_goals grind

theorem length_subPath_lt {expression : List Char} {parsed : List Step}
    (result : steps expression = .ok parsed) {text : String} (mem : .subPath text ∈ parsed) :
    text.toList.length < expression.length := by
  cases hf : expression.foldlM State.step State.start with
  | error e => simp [steps, hf, Except.bind] at result
  | ok s =>
    have start : Shorter State.start := ⟨by simp [State.start], by simp [State.start]⟩
    obtain ⟨h, hp⟩ := start.foldlM hf
    simp only [steps, hf, Except.bind] at result
    have := h.subPath text (subPath_of_finish result mem)
    rw [hp] at this
    simpa [State.start] using this

end TreePath.Scan

namespace TreePath

/-- A sub-path of an expression is shorter than the expression. -/
theorem Step.length_subPath_lt {expression : String} {steps : List Step}
    (result : Step.parse expression = .ok steps) {text : String} (mem : .subPath text ∈ steps) :
    text.toList.length < expression.toList.length := by
  unfold Step.parse at result
  dsimp only at result
  split at result
  · cases result
  · cases hs : Scan.steps expression.toList with
    | error e => rw [hs] at result; cases result
    | ok parsed =>
      rw [hs] at result
      cases result
      exact Scan.length_subPath_lt hs mem

end TreePath
