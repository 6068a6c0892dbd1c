/-
# Partners — brackets and parentheses that belong together

In balanced text every bracket and parenthesis has its partner.  Two functions look for these by counting:
`enclosed?` counts parentheses and passes over brackets, and the split at a separator counts both, as if each
closed every other.  In balanced text neither is misled.

* `Partnered` is a text that begins with a parenthesis, with what is between it and its partner.  There is
  one partner (`Partnered.unique`), and `Balanced.enclosed?_eq_some_iff` says that a text is enclosed exactly
  if it is the last character.
* `Parts` says what a split should be: the parts, joined again, are the text, and no separator in a part is
  `Exposed`.  `Balanced.parts` proves it of the split.
* A closer where nothing is open would be passed over in silence.  `splitChecked?` is the split that is given
  up there, and `Balanced.checked` says that this never happens.

Blanks at the ends of a text do not matter to its balance (`Balanced.trim`), which is needed because the
content of a bracket is trimmed before it is looked at.
-/
import TreePath.Proofs.Path.Quotation

namespace TreePath

namespace Quote

/-! ## Blanks at the ends -/

theorem Balanced.of_blank {c : Char} {rest : List Char} (balanced : Balanced (c :: rest))
    (blank : Text.isBlank c = true) : Balanced rest := by
  cases balanced with
  | plain _ others => exact others
  | quoted isMark _ _ =>
      rw [isBlank_of_isMark isMark] at blank
      cases blank
  | nested partners _ _ => cases partners <;> cases blank

theorem Balanced.trimLeft {text : List Char} (balanced : Balanced text) :
    Balanced (text.dropWhile Text.isBlank) := by
  induction text with
  | nil => exact balanced
  | cons c rest ih =>
      by_cases blank : Text.isBlank c = true
      · rw [List.dropWhile_cons_of_pos blank]
        exact ih (balanced.of_blank blank)
      · rw [List.dropWhile_cons_of_neg blank]
        exact balanced

/-- A text that ends in a mark or a closer stays as it is in front of what is trimmed. -/
theorem balanced_trimRight_append {chunk text : List Char} (chunkBalanced : Balanced chunk)
    (visible : Text.trimRight chunk = chunk) (balanced : Balanced (Text.trimRight text)) :
    Balanced (Text.trimRight (chunk ++ text)) := by
  rw [Text.trimRight_append, visible]
  split
  · exact chunkBalanced
  · exact chunkBalanced.append balanced

theorem trimRight_concat {last : Char} (visible : Text.isBlank last = false) (text : List Char) :
    Text.trimRight (text ++ [last]) = text ++ [last] := by
  have kept : Text.trimRight [last] = [last] := by
    rw [Text.trimRight, List.reverse_singleton, List.dropWhile_cons_of_neg (by simp [visible])]
    rfl
  rw [Text.trimRight_append, kept, if_neg (by simp)]

theorem Balanced.trimRight {text : List Char} (balanced : Balanced text) :
    Balanced (Text.trimRight text) := by
  induction balanced with
  | nil => exact .nil
  | @plain c rest plain _ ih =>
      by_cases blank : Text.isBlank c = true
      · rw [← List.singleton_append, Text.trimRight_append]
        have gone : Text.trimRight [c] = [] := by
          rw [Text.trimRight, List.reverse_singleton, List.dropWhile_cons_of_pos blank]
          rfl
        rw [gone]
        split
        · exact .nil
        · exact .plain plain ih
      · exact balanced_trimRight_append (.plain plain .nil)
          (trimRight_concat (by simpa using blank) []) ih
  | @quoted mark body rest isMark inside _ ih =>
      rw [← List.cons_append, List.append_cons]
      exact balanced_trimRight_append (balanced_quoted isMark inside)
        (trimRight_concat (isBlank_of_isMark isMark) (mark :: body)) ih
  | @nested left right body rest partners inner _ ihBody ih =>
      have visible : Text.isBlank right = false := by cases partners <;> rfl
      rw [← List.cons_append, List.append_cons]
      exact balanced_trimRight_append (.nested partners inner .nil)
        (trimRight_concat visible (left :: body)) ih

theorem Balanced.trim {text : List Char} (balanced : Balanced text) : Balanced (Text.trim text) :=
  balanced.trimLeft.trimRight

/-! ## The partner of a parenthesis -/

theorem closesParentheses_other {c : Char} (opening : c ≠ '(') (closing : c ≠ ')') (depth : Nat)
    (rest : List Char) :
    closesParentheses .outside depth (c :: rest) =
      closesParentheses (Quote.outside.next c) depth rest := by
  rw [closesParentheses.eq_def]
  dsimp only
  rw [if_pos rfl]
  split
  · exact absurd rfl opening
  · exact absurd rfl closing
  · exact absurd rfl closing
  · rfl

theorem closesParentheses_quoted {quote : Quote} (quoted : quote ≠ .outside) (depth : Nat) (c : Char)
    (rest : List Char) :
    closesParentheses quote depth (c :: rest) = closesParentheses (quote.next c) depth rest := by
  rw [closesParentheses.eq_def]
  exact if_neg quoted

theorem closesParentheses_inside {mark : Char} (escape : mark ≠ '\\') {body : List Char}
    (inside : Inside mark body) (depth : Nat) (rest : List Char) :
    closesParentheses (.inside mark) depth (body ++ mark :: rest) =
      closesParentheses .outside depth rest := by
  induction inside with
  | nil => rw [List.nil_append, closesParentheses_quoted (by simp), next, if_neg escape, if_pos rfl]
  | plain ne ne' _ ih =>
      rw [List.cons_append, closesParentheses_quoted (by simp), next, if_neg ne', if_neg ne, ih]
  | escape _ ih =>
      rw [List.cons_append, List.cons_append, closesParentheses_quoted (by simp), next, if_pos rfl,
        closesParentheses_quoted (by simp), next, ih]

/-- Balanced text leaves the number of open parentheses as it was. -/
theorem Balanced.closesParentheses {text : List Char} (balanced : Balanced text) (depth : Nat)
    (rest : List Char) :
    closesParentheses .outside depth (text ++ rest) = closesParentheses .outside depth rest := by
  induction balanced generalizing depth rest with
  | nil => rfl
  | @plain c _ plain _ ih =>
      obtain ⟨opens, closes⟩ := unnested_of_isPlain plain
      rw [List.cons_append, closesParentheses_other (fun eq => opens (.inl eq)) fun eq => closes (.inl eq),
        next_of_isPlain plain]
      exact ih depth rest
  | @quoted mark body text isMark inside _ ih =>
      obtain ⟨opens, closes⟩ := unnested_of_isMark isMark
      rw [List.cons_append, List.append_assoc, List.cons_append,
        closesParentheses_other (fun eq => opens (.inl eq)) fun eq => closes (.inl eq), next, if_pos isMark,
        closesParentheses_inside (ne_escape_of_isMark isMark) inside]
      exact ih depth rest
  | @nested left right body text partners _ _ ihBody ihText =>
      rw [List.cons_append, List.append_assoc, List.cons_append]
      cases partners with
      | bracket =>
          rw [closesParentheses_other (by decide) (by decide)]
          show Quote.closesParentheses .outside depth (body ++ ']' :: (text ++ rest)) = _
          rw [ihBody, closesParentheses_other (by decide) (by decide)]
          exact ihText depth rest
      | parenthesis =>
          show Quote.closesParentheses .outside (depth + 1) (body ++ ')' :: (text ++ rest)) = _
          rw [ihBody]
          exact ihText depth rest

theorem Balanced.enclosed? {body : List Char} (balanced : Balanced body) :
    enclosed? ('(' :: (body ++ [')'])) = some body := by
  have suffix : [')'].isSuffixOf? (body ++ [')']) = some body :=
    List.isSuffixOf?_eq_some_iff_append_eq.mpr rfl
  have closes := balanced.closesParentheses 0 []
  rw [List.append_nil] at closes
  rw [Quote.enclosed?, suffix, Option.filter, closes]
  rfl

theorem balanced_parenthesized {body : List Char} (balanced : Balanced body) :
    Balanced ('(' :: (body ++ [')'])) :=
  .nested .parenthesis balanced .nil

/-- The text begins with a parenthesis, and between it and its partner is `body`. -/
structure Partnered (text body rest : List Char) : Prop where
  text : text = '(' :: (body ++ ')' :: rest)
  balanced : Balanced body

theorem Balanced.exists_partnered {text : List Char} (balanced : Balanced text)
    (head : text.head? = some '(') : ∃ body rest, Partnered text body rest := by
  cases balanced with
  | nil => cases head
  | plain plain _ =>
      cases head
      cases plain
  | quoted isMark _ _ =>
      cases head
      cases isMark
  | nested partners body _ =>
      cases head
      cases partners
      exact ⟨_, _, rfl, body⟩

/-- Parentheses that are closed in front of a closing one do not reach beyond the partner. -/
theorem length_le_of_closes {body body' rest rest' : List Char} (balanced : Balanced body)
    (closes : closesParentheses .outside 0 body' = true)
    (same : body ++ ')' :: rest = body' ++ ')' :: rest') : body'.length ≤ body.length := by
  rcases List.append_eq_append_iff.mp same with ⟨more, longer, eq⟩ | ⟨more, rfl, _⟩
  · cases more with
    | nil =>
        exact Nat.le_of_eq (by rw [longer, List.append_nil])
    | cons c more =>
        cases eq
        rw [longer, balanced.closesParentheses] at closes
        cases closes
  · rw [List.length_append]
    exact Nat.le_add_right _ _

theorem Balanced.closes {text : List Char} (balanced : Balanced text) :
    Quote.closesParentheses .outside 0 text = true := by
  have whole := balanced.closesParentheses 0 []
  rw [List.append_nil] at whole
  rw [whole]
  rfl

theorem Partnered.unique {text body body' rest rest' : List Char} (h : Partnered text body rest)
    (h' : Partnered text body' rest') : body = body' ∧ rest = rest' := by
  have same := (List.cons.inj (h.text.symm.trans h'.text)).2
  have le := length_le_of_closes h.balanced h'.balanced.closes same
  have ge := length_le_of_closes h'.balanced h.balanced.closes same.symm
  obtain ⟨rfl, tails⟩ := List.append_inj same (Nat.le_antisymm ge le)
  exact ⟨rfl, (List.cons.inj tails).2⟩

theorem closes_of_enclosed? {text body : List Char} (enclosed : enclosed? text = some body) :
    text = '(' :: (body ++ [')']) ∧ closesParentheses .outside 0 body = true := by
  rw [Quote.enclosed?.eq_def] at enclosed
  split at enclosed
  · obtain ⟨suffix, closes⟩ := Option.filter_eq_some_iff.mp enclosed
    exact ⟨congrArg _ (List.isSuffixOf?_eq_some_iff_append_eq.mp suffix).symm, closes⟩
  · cases enclosed

theorem Balanced.enclosed?_eq_some_iff {text body : List Char} (balanced : Balanced text) :
    Quote.enclosed? text = some body ↔ Partnered text body [] := by
  constructor
  · intro enclosed
    obtain ⟨rfl, closes⟩ := closes_of_enclosed? enclosed
    obtain ⟨body', rest', partnered⟩ := balanced.exists_partnered rfl
    have same := (List.cons.inj partnered.text).2
    have le := length_le_of_closes partnered.balanced closes same.symm
    have lengths := congrArg List.length same
    simp only [List.length_append, List.length_cons, List.length_nil] at lengths
    have last : rest' = [] := List.eq_nil_of_length_eq_zero (by omega)
    subst last
    rw [List.append_cancel_right same]
    rw [List.append_cancel_right same] at partnered
    exact partnered
  · rintro ⟨rfl, inner⟩
    exact inner.enclosed?

/-! ## The parts between separators -/

/-- The separator stands in the text where no quotes, brackets and parentheses are around it. -/
def Exposed (separator : Char) (text : List Char) : Prop :=
  ∃ before after, text = before ++ separator :: after ∧ Balanced before

/-- The parts of a text between the separators that nothing is around. -/
structure Parts (separator : Char) (text : List Char) (parts : List (List Char)) : Prop where
  joined : [separator].intercalate parts = text
  balanced : ∀ part ∈ parts, Balanced part
  whole : ∀ part ∈ parts, ¬ Exposed separator part

variable {separator : Char}

theorem splitOutside_opening {left right : Char} (partners : Partners left right) (depth : Nat)
    (rest : List Char) :
    splitOutside separator .outside depth (left :: rest) =
      consFirst left (splitOutside separator .outside (depth + 1) rest) := by
  cases partners <;> rfl

theorem splitOutside_closing {left right : Char} (partners : Partners left right) (depth : Nat)
    (rest : List Char) :
    splitOutside separator .outside (depth + 1) (right :: rest) =
      consFirst right (splitOutside separator .outside depth rest) := by
  cases partners <;> rfl

/-- Inside brackets or parentheses nothing is split. -/
theorem splitOutside_deep {body : List Char} (balanced : Balanced body) (depth : Nat)
    (rest : List Char) :
    splitOutside separator .outside (depth + 1) (body ++ rest) =
      prependFirst body (splitOutside separator .outside (depth + 1) rest) := by
  induction balanced generalizing depth rest with
  | nil => rfl
  | @plain c text isPlain _ ih =>
      obtain ⟨opens, closes⟩ := unnested_of_isPlain isPlain
      rw [List.cons_append, splitOutside, if_pos rfl, if_neg opens, if_neg closes, if_neg (by simp),
        next_of_isPlain isPlain, ih]
      rfl
  | @quoted mark inner text isMark inside _ ih =>
      obtain ⟨opens, closes⟩ := unnested_of_isMark isMark
      rw [List.cons_append, List.append_assoc, List.cons_append, splitOutside, if_pos rfl,
        if_neg opens, if_neg closes, if_neg (by simp), next, if_pos isMark,
        splitOutside_inside isMark inside, ih, ← prependFirst_append, List.append_assoc]
      rfl
  | @nested left right inner text partners _ _ ihInner ih =>
      rw [List.cons_append, List.append_assoc, List.cons_append, splitOutside_opening partners,
        ihInner, splitOutside_closing partners, ih]
      simp only [prependFirst, List.foldr_cons, List.foldr_append]

theorem solid_nested {left right : Char} {body : List Char} (partners : Partners left right)
    (balanced : Balanced body) : Solid separator (left :: (body ++ [right])) := by
  intro rest
  rw [List.cons_append, List.append_assoc, List.singleton_append, splitOutside_opening partners,
    splitOutside_deep balanced, splitOutside_closing partners]
  simp only [prependFirst, List.foldr_cons, List.foldr_append, List.foldr_nil]

/-- A text of balanced parts with separators between them, each part left in one piece by a split. -/
def Divided (separator : Char) (text : List Char) : Prop :=
  ∃ first others, text = first ++ others.flatMap (separator :: ·) ∧
    ∀ part ∈ first :: others, Solid separator part ∧ Balanced part

theorem Divided.prepend {chunk text : List Char} (solid : Solid separator chunk)
    (balanced : Balanced chunk) (divided : Divided separator text) :
    Divided separator (chunk ++ text) := by
  obtain ⟨first, others, rfl, parts⟩ := divided
  refine ⟨chunk ++ first, others, (List.append_assoc ..).symm, ?_⟩
  intro part mem
  rcases List.mem_cons.mp mem with rfl | mem
  · have head := parts first List.mem_cons_self
    exact ⟨solid.append head.1, balanced.append head.2⟩
  · exact parts part (List.mem_cons_of_mem _ mem)

theorem Divided.separate {text : List Char} (divided : Divided separator text) :
    Divided separator (separator :: text) := by
  obtain ⟨first, others, rfl, parts⟩ := divided
  refine ⟨[], first :: others, rfl, ?_⟩
  intro part mem
  rcases List.mem_cons.mp mem with rfl | mem
  · exact ⟨solid_nil separator, .nil⟩
  · exact parts part mem

/-- Balanced text is divided by a separator: what is nested or quoted goes to a part as a whole. -/
theorem Balanced.divided (plain : isPlain separator = true) {text : List Char}
    (balanced : Balanced text) : Divided separator text := by
  induction balanced with
  | nil =>
      refine ⟨[], [], rfl, ?_⟩
      intro part mem
      rw [List.mem_singleton.mp mem]
      exact ⟨solid_nil separator, .nil⟩
  | @plain c rest isPlain _ ih =>
      by_cases same : c = separator
      · rw [same]
        exact ih.separate
      · exact ih.prepend (solid_plain isPlain same) (.plain isPlain .nil)
  | @quoted mark body rest isMark inside _ ih =>
      have ne : mark ≠ separator := by
        rintro rfl
        rw [Quote.isPlain, isMark] at plain
        cases plain
      rw [← List.cons_append, List.append_cons]
      exact ih.prepend (solid_quoted isMark ne inside) (balanced_quoted isMark inside)
  | @nested left right body rest partners inner _ _ ih =>
      rw [← List.cons_append, List.append_cons]
      exact ih.prepend (solid_nested partners inner) (.nested partners inner .nil)

theorem splitOutside_ne_nil (quote : Quote) (depth : Nat) (text : List Char) :
    splitOutside separator quote depth text ≠ [] := by
  have consFirst_ne : ∀ (c : Char) (parts : List (List Char)), consFirst c parts ≠ [] := by
    rintro c (_ | _) ⟨⟩
  cases text with
  | nil => simp [splitOutside]
  | cons c rest =>
      rw [splitOutside]
      repeat' split
      all_goals first | exact consFirst_ne c _ | exact List.cons_ne_nil _ _

theorem Solid.not_exposed (plain : isPlain separator = true) {text : List Char}
    (solid : Solid separator text) : ¬ Exposed separator text := by
  rintro ⟨before, after, rfl, balanced⟩
  obtain ⟨first, others, rfl, parts⟩ := balanced.divided plain
  -- The first separator of the text ends its first part, whichever it is.
  obtain ⟨rest, eq⟩ : ∃ rest, first ++ others.flatMap (separator :: ·) ++ separator :: after =
      first ++ separator :: rest := by
    cases others with
    | nil => exact ⟨after, by simp⟩
    | cons second others =>
        exact ⟨second ++ others.flatMap (separator :: ·) ++ separator :: after, by simp⟩
  have split := solid.split
  rw [eq, (parts first List.mem_cons_self).1.split_separator plain] at split
  exact splitOutside_ne_nil _ _ _ (List.cons.inj split).2

theorem intercalate_eq (first : List Char) (others : List (List Char)) :
    [separator].intercalate (first :: others) = first ++ others.flatMap (separator :: ·) := by
  induction others generalizing first with
  | nil => rw [List.intercalate_singleton, List.flatMap_nil, List.append_nil]
  | cons second others ih =>
      rw [List.intercalate_cons_cons, ih, List.flatMap_cons, List.append_assoc]
      rfl

/-- The split of a balanced text is the text without the separators that nothing is around. -/
theorem Balanced.parts (plain : isPlain separator = true) {text : List Char}
    (balanced : Balanced text) :
    Parts separator text (splitOutside separator .outside 0 text) := by
  obtain ⟨first, others, rfl, parts⟩ := balanced.divided plain
  rw [split_join plain first others fun part mem => (parts part mem).1]
  exact ⟨intercalate_eq first others, fun part mem => (parts part mem).2,
    fun part mem => (parts part mem).1.not_exposed plain⟩

/-! ## Closers without an opening -/

/-- The split, given up where a bracket or parenthesis is closed and none is open. -/
def splitChecked? (separator : Char) (quote : Quote) (depth : Nat) :
    List Char → Option (List (List Char))
  | [] => some [[]]
  | c :: rest =>
    if quote = .outside then
      if c = '(' ∨ c = '[' then
        (splitChecked? separator .outside (depth + 1) rest).map (consFirst c)
      else if c = ')' ∨ c = ']' then
        if depth = 0 then none
        else (splitChecked? separator .outside (depth - 1) rest).map (consFirst c)
      else if c = separator ∧ depth = 0 then
        (splitChecked? separator .outside 0 rest).map ([] :: ·)
      else (splitChecked? separator (Quote.outside.next c) depth rest).map (consFirst c)
    else (splitChecked? separator (quote.next c) depth rest).map (consFirst c)

def Checked (separator : Char) (quote : Quote) (depth : Nat) (text : List Char) : Prop :=
  splitChecked? separator quote depth text = some (splitOutside separator quote depth text)

theorem checked_nil (quote : Quote) (depth : Nat) : Checked separator quote depth [] :=
  rfl

theorem Checked.quoted {quote : Quote} (quoted : quote ≠ .outside) {depth : Nat} {c : Char}
    {rest : List Char} (h : Checked separator (quote.next c) depth rest) :
    Checked separator quote depth (c :: rest) := by
  rw [Checked, splitChecked?, if_neg quoted, h, splitOutside, if_neg quoted]
  rfl

theorem Checked.opening {left right : Char} (partners : Partners left right) {depth : Nat}
    {rest : List Char} (h : Checked separator .outside (depth + 1) rest) :
    Checked separator .outside depth (left :: rest) := by
  have opens : left = '(' ∨ left = '[' := by
    cases partners
    · exact .inr rfl
    · exact .inl rfl
  rw [Checked, splitOutside_opening partners, splitChecked?, if_pos rfl, if_pos opens, h]
  rfl

theorem Checked.closing {left right : Char} (partners : Partners left right) {depth : Nat}
    {rest : List Char} (h : Checked separator .outside depth rest) :
    Checked separator .outside (depth + 1) (right :: rest) := by
  have opens : ¬ (right = '(' ∨ right = '[') := by cases partners <;> decide
  have closes : right = ')' ∨ right = ']' := by
    cases partners
    · exact .inr rfl
    · exact .inl rfl
  rw [Checked, splitOutside_closing partners, splitChecked?, if_pos rfl, if_neg opens, if_pos closes,
    if_neg (by simp), Nat.add_sub_cancel, h]
  rfl

/-- Every other character is passed over, and a separator is none that begins quoted text. -/
theorem Checked.other {c : Char} (opens : ¬ (c = '(' ∨ c = '[')) (closes : ¬ (c = ')' ∨ c = ']'))
    (plain : isPlain separator = true) {depth : Nat} {rest : List Char}
    (h : Checked separator (Quote.outside.next c) depth rest) :
    Checked separator .outside depth (c :: rest) := by
  rw [Checked, splitChecked?, if_pos rfl, if_neg opens, if_neg closes, splitOutside, if_pos rfl,
    if_neg opens, if_neg closes]
  by_cases ends : c = separator ∧ depth = 0
  · obtain ⟨rfl, rfl⟩ := ends
    rw [next_of_isPlain plain] at h
    rw [if_pos ⟨rfl, rfl⟩, if_pos ⟨rfl, rfl⟩, h]
    rfl
  · rw [if_neg ends, if_neg ends, h]
    rfl

theorem Checked.inside {mark : Char} (isMark : isMark mark = true) {body : List Char}
    (inside : Inside mark body) {depth : Nat} {rest : List Char}
    (h : Checked separator .outside depth rest) :
    Checked separator (.inside mark) depth (body ++ mark :: rest) := by
  induction inside with
  | nil =>
      refine .quoted (by simp) ?_
      rwa [next, if_neg (ne_escape_of_isMark isMark), if_pos rfl]
  | plain ne ne' _ ih =>
      refine .quoted (by simp) ?_
      rwa [next, if_neg ne', if_neg ne]
  | escape _ ih =>
      refine .quoted (by simp) ?_
      rw [next, if_pos rfl]
      exact .quoted (by simp) ih

theorem Balanced.checked_append (plain : isPlain separator = true) {text : List Char}
    (balanced : Balanced text) {depth : Nat} {rest : List Char}
    (h : Checked separator .outside depth rest) : Checked separator .outside depth (text ++ rest) := by
  induction balanced generalizing depth rest with
  | nil => exact h
  | @plain c text isPlain _ ih =>
      obtain ⟨opens, closes⟩ := unnested_of_isPlain isPlain
      refine .other opens closes plain ?_
      rw [next_of_isPlain isPlain]
      exact ih h
  | @quoted mark body text isMark inside _ ih =>
      obtain ⟨opens, closes⟩ := unnested_of_isMark isMark
      rw [List.cons_append, List.append_assoc, List.cons_append]
      refine .other opens closes plain ?_
      rw [next, if_pos isMark]
      exact .inside isMark inside (ih h)
  | @nested left right body text partners _ _ ihBody ih =>
      rw [List.cons_append, List.append_assoc, List.cons_append]
      exact .opening partners (ihBody (.closing partners (ih h)))

theorem Balanced.checked (plain : isPlain separator = true) {text : List Char}
    (balanced : Balanced text) : Checked separator .outside 0 text := by
  have empty : Checked separator .outside 0 [] := checked_nil .outside 0
  have whole := balanced.checked_append plain empty
  rwa [List.append_nil] at whole

end Quote

end TreePath
