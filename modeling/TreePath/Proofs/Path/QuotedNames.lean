/-
# Quoted names — which texts between two quotation marks are names

The documentation lists the escapes of a quoted name: the letters and marks that stand for one character
each, and `\u` with four hexadecimal digits.  `Reads` is that grammar, with what counts as the code of a
character left open.

* With the codes of the documentation (`FourDigits`) it says what should be accepted.
* With the codes that the decoder takes (`UpToFour`) it is the decoder (`unescape_eq_ok_iff`): up to four
  characters, fewer of them at the end of the name, and a plus sign in front of the digits.

So the documented names are all read, with the characters they denote.  They are the only ones unless a code
is `Loose`: a `\u` in front of a plus sign or of fewer than four characters.  `accepts_quoted` has both
halves, for paths that are a root and a text between two marks, and what happens in the loose case.
`accepts_short_code` is such a path.

A text that holds its own mark ends the quotation early, and the path is about something else then.
`hasMark_or_inside` keeps these cases apart.
-/
import TreePath.Proofs.Path.Brackets
import TreePath.Proofs.Path.Subscripts

namespace TreePath

namespace Text

theorem ofCodePoint?_eq_some_iff {n : Nat} {c : Char} : ofCodePoint? n = some c ↔ n = c.toNat := by
  rw [ofCodePoint?]
  constructor
  · intro h
    split at h
    · rename_i valid
      cases h
      rw [Char.ofNat, dif_pos valid]
      exact (UInt32.toNat_ofNatLT ..).symm
    · cases h
  · rintro rfl
    rw [if_pos (show c.toNat.isValidChar from c.valid), Char.ofNat_toNat]

theorem exists_hexValue_of_foldlM {digits : List Char} {start n : Nat}
    (h : digits.foldlM (fun n c => (hexValue? c).map (16 * n + ·)) start = some n) :
    ∀ c ∈ digits, hexValue? c ≠ none := by
  induction digits generalizing start with
  | nil => simp
  | cons c rest ih =>
      rw [List.foldlM_cons] at h
      cases value : hexValue? c with
      | none =>
          rw [value] at h
          cases h
      | some v =>
          rw [value] at h
          intro d mem
          rcases List.mem_cons.mp mem with rfl | mem
          · rw [value]
            rintro ⟨⟩
          · exact ih h d mem

/-- A number in hexadecimal digits is written in these only. -/
theorem hexValue?_ne_none {digits : List Char} {n : Nat} (h : ofHex? digits = some n) :
    ∀ c ∈ digits, hexValue? c ≠ none := by
  cases digits with
  | nil => cases h
  | cons c rest => exact exists_hexValue_of_foldlM h

/-- The code of a character, and it after a plus sign, denote that character. -/
theorem codePoint?_eq_some_iff {text : List Char} {c : Char} :
    codePoint? text = some c ↔
      ∃ digits, (text = digits ∨ text = '+' :: digits) ∧ ofHex? digits = some c.toNat := by
  have read : ∀ digits, (ofHex? digits).bind ofCodePoint? = some c ↔ ofHex? digits = some c.toNat := by
    intro digits
    rw [Option.bind_eq_some_iff]
    constructor
    · rintro ⟨n, value, code⟩
      rw [value, ofCodePoint?_eq_some_iff.mp code]
    · intro value
      exact ⟨c.toNat, value, ofCodePoint?_eq_some_iff.mpr rfl⟩
  rw [codePoint?.eq_def]
  dsimp only
  split
  · rename_i digits
    rw [read]
    constructor
    · intro value
      exact ⟨digits, .inr rfl, value⟩
    · rintro ⟨digits', same | same, value⟩
      · subst same
        exact absurd rfl (hexValue?_ne_none value '+' List.mem_cons_self)
      · cases same
        exact value
  · rename_i unsigned
    rw [read]
    constructor
    · intro value
      exact ⟨text, .inl rfl, value⟩
    · rintro ⟨digits, rfl | rfl, value⟩
      · exact value
      · exact absurd rfl (unsigned digits)

end Text

namespace Subscript

open Quote

/-! ## The grammar of names -/

/-- The letters and marks that stand for one character after a backslash. -/
inductive Escape : Char → Char → Prop
  | backslash : Escape '\\' '\\'
  | apostrophe : Escape '\'' '\''
  | quote : Escape '"' '"'
  | slash : Escape '/' '/'
  | lineFeed : Escape 'n' '\n'
  | tab : Escape 't' '\t'
  | carriageReturn : Escape 'r' '\r'
  | backspace : Escape 'b' '\x08'
  | formFeed : Escape 'f' '\x0c'

/-- The text between two marks denotes a name, by what may be the code of a character: a text, in front
of another, that denotes the character. -/
inductive Reads (mark : Char) (code : List Char → List Char → Char → Prop) :
    List Char → List Char → Prop
  | nil : Reads mark code [] []
  | plain {c : Char} {rest name : List Char} : c ≠ mark → c ≠ '\\' → Reads mark code rest name →
      Reads mark code (c :: rest) (c :: name)
  | escape {e c : Char} {rest name : List Char} : Escape e c → Reads mark code rest name →
      Reads mark code ('\\' :: e :: rest) (c :: name)
  | code {c : Char} {digits rest name : List Char} : code digits rest c →
      Reads mark code rest name → Reads mark code ('\\' :: 'u' :: (digits ++ rest)) (c :: name)

/-- The codes of the documentation: four hexadecimal digits. -/
def FourDigits (digits _rest : List Char) (c : Char) : Prop :=
  digits.length = 4 ∧ Text.ofHex? digits = some c.toNat

/-- The codes that are read: four characters or all there are, hexadecimal digits but for a plus sign in
front. -/
def UpToFour (text rest : List Char) (c : Char) : Prop :=
  (text.length = 4 ∨ text.length < 4 ∧ rest = []) ∧
    ∃ digits, (text = digits ∨ text = '+' :: digits) ∧ Text.ofHex? digits = some c.toNat

/-- A code stands in front of a plus sign or of fewer than four characters. -/
def Loose (mark : Char) (content : List Char) : Prop :=
  ∃ before rest, content = before ++ '\\' :: 'u' :: rest ∧ Inside mark before ∧
    (rest.head? = some '+' ∨ rest.length < 4)

/-- The mark stands in the text other than after a backslash. -/
def HasMark (mark : Char) (content : List Char) : Prop :=
  ∃ before rest, content = before ++ mark :: rest ∧ Inside mark before

theorem escaped?_eq_some_iff {e c : Char} : escaped? e = some c ↔ Escape e c := by
  constructor
  · intro h
    rw [escaped?] at h
    cases control : Text.control? e with
    | some c' =>
        rw [control] at h
        cases h
        rw [Text.control?.eq_def] at control
        split at control <;> cases control
        · exact .lineFeed
        · exact .tab
        · exact .carriageReturn
        · exact .backspace
        · exact .formFeed
    | none =>
        rw [control] at h
        dsimp only at h
        split at h
        · rename_i itself
          cases h
          rcases itself with rfl | rfl | rfl | rfl
          · exact .backslash
          · exact .apostrophe
          · exact .quote
          · exact .slash
        · cases h
  · rintro ⟨⟩ <;> rfl

theorem Escape.ne_codePoint {e c : Char} (h : Escape e c) : e ≠ 'u' := by
  cases h <;> decide

/-- A code that is read is what the decoder cuts off. -/
theorem UpToFour.cut {digits rest : List Char} {c : Char} (code : UpToFour digits rest c) :
    (digits ++ rest).take 4 = digits ∧ (digits ++ rest).drop 4 = rest := by
  rcases code.1 with four | ⟨fewer, rfl⟩
  · exact ⟨List.take_left' four, List.drop_left' four⟩
  · rw [List.append_nil]
    exact ⟨List.take_of_length_le (Nat.le_of_lt fewer), List.drop_of_length_le (Nat.le_of_lt fewer)⟩

theorem upToFour_of_codePoint {rest : List Char} {c : Char}
    (code : Text.codePoint? (rest.take 4) = some c) : UpToFour (rest.take 4) (rest.drop 4) c := by
  refine ⟨?_, Text.codePoint?_eq_some_iff.mp code⟩
  rw [List.length_take, List.drop_eq_nil_iff]
  omega

theorem unescape_of_reads {mark : Char} {content name : List Char} (item : List Char)
    (reads : Reads mark UpToFour content name) : unescape mark item content = .ok name := by
  induction reads with
  | nil => rw [unescape]
  | plain ne ne' _ ih =>
      rw [unescape_plain _ _ ne' ne, ih]
      rfl
  | escape escape _ ih =>
      rw [unescape_escaped _ _ _ escape.ne_codePoint (escaped?_eq_some_iff.mpr escape), ih]
      rfl
  | code code _ ih =>
      obtain ⟨taken, left⟩ := code.cut
      rw [unescape.eq_2, taken, left, Text.codePoint?_eq_some_iff.mpr code.2, ih]
      rfl

theorem reads_of_unescape {mark : Char} {item content name : List Char}
    (h : unescape mark item content = .ok name) : Reads mark UpToFour content name := by
  fun_induction unescape mark item content generalizing name with
  | case1 =>
      cases h
      exact .nil
  | case2 rest c code ih =>
      obtain ⟨others, decoded, rfl⟩ := map_eq_ok_iff.mp h
      have reads := Reads.code (upToFour_of_codePoint code) (ih decoded)
      rw [List.take_append_drop] at reads
      exact reads
  | case3 => cases h
  | case4 => cases h
  | case5 e rest notCode c escaped ih =>
      obtain ⟨others, decoded, rfl⟩ := map_eq_ok_iff.mp h
      exact .escape (escaped?_eq_some_iff.mp escaped) (ih decoded)
  | case6 => cases h
  | case7 => cases h
  | case8 c rest _ dangling escape ne ih =>
      obtain ⟨others, decoded, rfl⟩ := map_eq_ok_iff.mp h
      refine .plain ne ?_ (ih decoded)
      intro backslash
      cases rest with
      | nil => exact dangling backslash rfl
      | cons e rest => exact escape e rest backslash rfl

theorem unescape_eq_ok_iff {mark : Char} {item content name : List Char} :
    unescape mark item content = .ok name ↔ Reads mark UpToFour content name :=
  ⟨reads_of_unescape, unescape_of_reads item⟩

/-! ## Codes of four digits -/

theorem FourDigits.upToFour {digits rest : List Char} {c : Char} (code : FourDigits digits rest c) :
    UpToFour digits rest c :=
  ⟨.inl code.1, digits, .inl rfl, code.2⟩

theorem Reads.upToFour {mark : Char} {content name : List Char}
    (reads : Reads mark FourDigits content name) : Reads mark UpToFour content name := by
  induction reads with
  | nil => exact .nil
  | plain ne ne' _ ih => exact .plain ne ne' ih
  | escape escape _ ih => exact .escape escape ih
  | code code _ ih => exact .code code.upToFour ih

theorem ne_of_ofHex? {digits : List Char} {n : Nat} (value : Text.ofHex? digits = some n) {c : Char}
    (other : Text.hexValue? c = none) : ∀ d ∈ digits, d ≠ c := by
  rintro d mem rfl
  exact Text.hexValue?_ne_none value d mem other

theorem hexValue?_mark {mark : Char} (h : isMark mark = true) : Text.hexValue? mark = none := by
  rcases isMark_iff.mp h with rfl | rfl <;> decide

theorem inside_of_forall {mark : Char} {text : List Char}
    (plain : ∀ c ∈ text, c ≠ mark ∧ c ≠ '\\') : Inside mark text := by
  induction text with
  | nil => exact .nil
  | cons c rest ih =>
      obtain ⟨ne, ne'⟩ := plain c List.mem_cons_self
      exact .plain ne ne' (ih fun d mem => plain d (List.mem_cons_of_mem _ mem))

theorem UpToFour.inside {mark : Char} (h : isMark mark = true) {digits rest : List Char} {c : Char}
    (code : UpToFour digits rest c) : Inside mark digits := by
  obtain ⟨_, digits', text, value⟩ := code
  have inside : Inside mark digits' :=
    inside_of_forall fun d mem =>
      ⟨ne_of_ofHex? value (hexValue?_mark h) d mem, ne_of_ofHex? value (by decide) d mem⟩
  rcases text with rfl | rfl
  · exact inside
  · refine .plain ?_ (by decide) inside
    rintro rfl
    exact absurd h (by decide)

theorem Reads.inside {mark : Char} (h : isMark mark = true) {content name : List Char}
    (reads : Reads mark UpToFour content name) : Inside mark content := by
  induction reads with
  | nil => exact .nil
  | plain ne ne' _ ih => exact .plain ne ne' ih
  | escape _ _ ih => exact .escape ih
  | code code _ ih => exact .escape ((code.inside h).append ih)

theorem Loose.append {mark : Char} {a b : List Char} (inside : Inside mark a)
    (loose : Loose mark b) : Loose mark (a ++ b) := by
  obtain ⟨before, rest, rfl, inside', stray⟩ := loose
  exact ⟨a ++ before, rest, (List.append_assoc ..).symm, inside.append inside', stray⟩

/-- Where no code is loose, the codes that are read are the documented ones. -/
theorem Reads.fourDigits {mark : Char} (h : isMark mark = true) {content name : List Char}
    (reads : Reads mark UpToFour content name) (firm : ¬ Loose mark content) :
    Reads mark FourDigits content name := by
  induction reads with
  | nil => exact .nil
  | @plain c rest _ ne ne' _ ih =>
      exact .plain ne ne' (ih fun loose => firm (loose.append (a := [c]) (.plain ne ne' .nil)))
  | @escape e _ rest _ escape _ ih =>
      exact .escape escape (ih fun loose => firm (loose.append (a := ['\\', e]) (.escape .nil)))
  | @code c digits rest _ code _ ih =>
      refine .code ?_ (ih fun loose =>
        firm (loose.append (a := '\\' :: 'u' :: digits) (.escape (code.inside h))))
      have whole : ¬ ((digits ++ rest).head? = some '+' ∨ (digits ++ rest).length < 4) :=
        fun stray => firm ⟨[], digits ++ rest, rfl, .nil, stray⟩
      obtain ⟨length, digits', text, value⟩ := code
      rcases length with four | ⟨fewer, rfl⟩
      · rcases text with rfl | rfl
        · exact ⟨four, value⟩
        · exact absurd (.inl rfl) whole
      · rw [List.append_nil] at whole
        exact absurd (.inr fewer) whole

theorem inside_of_append {mark : Char} {a b : List Char} (plain : ∀ c ∈ a, c ≠ '\\')
    (inside : Inside mark (a ++ b)) : Inside mark b := by
  induction a with
  | nil => exact inside
  | cons c a ih =>
      have rest : ∀ d ∈ a, d ≠ '\\' := fun d mem => plain d (List.mem_cons_of_mem _ mem)
      rw [List.cons_append] at inside
      generalize text : a ++ b = whole at inside ih
      cases inside with
      | plain _ _ others => exact ih rest others
      | escape _ => exact absurd rfl (plain '\\' List.mem_cons_self)

theorem Reads.firm {mark : Char} {content name : List Char}
    (reads : Reads mark FourDigits content name) : ¬ Loose mark content := by
  rintro ⟨before, after, text, inside, stray⟩
  induction reads generalizing before with
  | nil => simp at text
  | plain _ ne' _ ih =>
      cases inside with
      | nil => exact ne' (List.cons.inj text).1
      | plain _ _ inside => exact ih _ (List.cons.inj text).2 inside
      | escape _ => exact ne' (List.cons.inj text).1
  | escape escape _ ih =>
      cases inside with
      | nil => exact escape.ne_codePoint (List.cons.inj (List.cons.inj text).2).1
      | plain _ ne' _ => exact ne' (List.cons.inj text).1.symm
      | escape inside => exact ih _ (List.cons.inj (List.cons.inj text).2).2 inside
  | @code c digits rest name code _ ih =>
      obtain ⟨four, value⟩ := code
      have noBackslash : ∀ d ∈ digits, d ≠ '\\' := ne_of_ofHex? value (by decide)
      cases inside with
      | nil =>
          have same : digits ++ rest = after := (List.cons.inj (List.cons.inj text).2).2
          subst same
          rcases stray with plus | fewer
          · cases digits with
            | nil => cases four
            | cons d digits =>
                cases plus
                exact ne_of_ofHex? value (by decide) '+' List.mem_cons_self rfl
          · rw [List.length_append] at fewer
            omega
      | plain _ ne' _ => exact ne' (List.cons.inj text).1.symm
      | @escape _ before inside =>
          have same : digits ++ rest = before ++ '\\' :: 'u' :: after :=
            (List.cons.inj (List.cons.inj text).2).2
          rcases List.append_eq_append_iff.mp same with ⟨middle, rfl, split⟩ | ⟨middle, rfl, split⟩
          · exact ih middle split (inside_of_append noBackslash inside)
          · cases middle with
            | nil => exact ih [] split.symm .nil
            | cons d middle =>
                rw [List.cons_append] at split
                have first : '\\' = d := (List.cons.inj split).1
                exact noBackslash d (by simp) first.symm

/-! ## The scan of a name -/

theorem HasMark.append {mark : Char} {a b : List Char} (inside : Inside mark a)
    (marked : HasMark mark b) : HasMark mark (a ++ b) := by
  obtain ⟨before, rest, rfl, inside'⟩ := marked
  exact ⟨a ++ before, rest, (List.append_assoc ..).symm, inside.append inside'⟩

/-- A text holds the mark, or stands inside it, or ends in a backslash that would take the mark along. -/
theorem hasMark_or_inside (mark : Char) (content : List Char) :
    HasMark mark content ∨ Inside mark content ∨
      ∃ body, content = body ++ ['\\'] ∧ Inside mark body := by
  have front : ∀ a b : List Char, Inside mark a →
      (HasMark mark b ∨ Inside mark b ∨ ∃ body, b = body ++ ['\\'] ∧ Inside mark body) →
      HasMark mark (a ++ b) ∨ Inside mark (a ++ b) ∨
        ∃ body, a ++ b = body ++ ['\\'] ∧ Inside mark body := by
    rintro a b inside (marked | inside' | ⟨body, rfl, inside'⟩)
    · exact .inl (marked.append inside)
    · exact .inr (.inl (inside.append inside'))
    · exact .inr (.inr ⟨a ++ body, (List.append_assoc ..).symm, inside.append inside'⟩)
  induction content using List.twoStepInduction with
  | nil => exact .inr (.inl .nil)
  | singleton c =>
      by_cases backslash : c = '\\'
      · subst backslash
        exact .inr (.inr ⟨[], rfl, .nil⟩)
      by_cases marked : c = mark
      · subst marked
        exact .inl ⟨[], [], rfl, .nil⟩
      · exact .inr (.inl (.plain marked backslash .nil))
  | cons_cons c d rest escaped plain =>
      by_cases backslash : c = '\\'
      · subst backslash
        exact front ['\\', d] rest (.escape .nil) escaped
      by_cases marked : c = mark
      · subst marked
        exact .inl ⟨[], d :: rest, rfl, .nil⟩
      · exact front [c] (d :: rest) (.plain marked backslash .nil) (plain d)

end Subscript

namespace Scan

def quotedText (mark : Char) (content : List Char) : List Char :=
  '$' :: '[' :: (mark :: (content ++ [mark]) ++ [']'])

theorem scans_quoted {mark : Char} (h : Quote.isMark mark = true) {body : List Char}
    (inside : Quote.Inside mark body) :
    Scans .start ('$' :: '[' :: mark :: body)
      ⟨3 + body.length, .bracket 1 [']'] (.inside mark) 2 (body.reverse ++ [mark]), [.root]⟩ := by
  have begins : State.step ⟨2, .bracket 1 [']'] .outside 1 [], [.root]⟩ mark =
      .ok ⟨3, .bracket 1 [']'] (.inside mark) 2 [mark], [.root]⟩ := by
    rcases Quote.isMark_iff.mp h with rfl | rfl <;> rfl
  exact .cons rfl (.cons rfl (.cons begins (scans_inside inside 3 1 2 [']'] [mark] [.root])))

theorem Scans.steps_append {a : List Char} {s : State} (scans : Scans .start a s) (b : List Char) :
    steps (a ++ b) = (b.foldlM State.step s).bind State.finish := by
  have scans : a.foldlM State.step .start = .ok s := scans
  rw [steps, List.foldlM_append, scans]
  rfl

theorem steps_quotedText {mark : Char} (h : Quote.isMark mark = true) {content : List Char}
    (inside : Quote.Inside mark content) :
    steps (quotedText mark content) =
      ((Subscript.classify (mark :: (content ++ [mark]))).map fun step => [.root, step]).mapError
        fun flaw => ⟨2, flaw⟩ := by
  have next : (Quote.inside mark).next mark = .outside := by
    rw [Quote.next, if_neg (Quote.ne_escape_of_isMark h), if_pos rfl]
  have closes : State.step ⟨3 + content.length, .bracket 1 [']'] (.inside mark) 2
        (content.reverse ++ [mark]), [.root]⟩ mark =
      .ok ⟨4 + content.length, .bracket 1 [']'] .outside 2 (mark :: (content.reverse ++ [mark])),
        [.root]⟩ := by
    show Except.ok (State.go ⟨_, _, _⟩ (.bracket 1 [']'] ((Quote.inside mark).next mark) 2 _)) = _
    rw [next, State.go, Nat.add_right_comm]
  have item : (mark :: (content.reverse ++ [mark])).reverse = mark :: (content ++ [mark]) := by
    simp
  have ends : State.step ⟨4 + content.length, .bracket 1 [']'] .outside 2
        (mark :: (content.reverse ++ [mark])), [.root]⟩ ']' =
      State.pushAt ⟨4 + content.length + 1, .ready, [.root]⟩ 2
        (Subscript.classify (mark :: (content ++ [mark]))) := by
    show State.pushAt _ 2 (Subscript.classify (Text.trim (_ :: _).reverse)) = _
    rw [item, Text.trim_eq_self (Quote.trimmed_quoted h content)]
    rfl
  have text : quotedText mark content = ('$' :: '[' :: mark :: content) ++ [mark] ++ [']'] := by
    simp [quotedText]
  rw [text, ((scans_quoted h inside).append (.cons closes (.nil _))).steps_append, List.foldlM_cons,
    ends]
  cases Subscript.classify (mark :: (content ++ [mark])) with
  | error _ => rfl
  | ok step => rfl

/-- A backslash in front of the last mark takes it along. -/
theorem steps_dangling {mark : Char} (h : Quote.isMark mark = true) {body : List Char}
    (inside : Quote.Inside mark body) :
    steps (quotedText mark (body ++ ['\\'])) = .error ⟨2, .unterminatedString⟩ := by
  have bracket : (Quote.inside mark).next ']' = .inside mark := by
    rcases Quote.isMark_iff.mp h with rfl | rfl <;> rfl
  have text : quotedText mark (body ++ ['\\']) =
      ('$' :: '[' :: mark :: body) ++ ['\\', mark, ']'] := by
    simp [quotedText]
  rw [text, (scans_quoted h inside).steps_append]
  show (if (Quote.inside mark).next ']' = .outside then Except.error _ else Except.error _) = _
  rw [bracket]
  rfl

end Scan

namespace Subscript

open Quote

/-! ## Names in brackets -/

theorem classify_quoted {mark : Char} (h : isMark mark = true) (content : List Char) :
    classify (mark :: (content ++ [mark])) = selector (mark :: (content ++ [mark])) := by
  refine classify_eq_selector ?_ ?_
  · simp only [List.mem_cons, List.not_mem_nil, or_false, not_or]
    refine ⟨?_, ?_, ?_, ?_⟩ <;> rintro rfl <;> exact absurd h (by decide)
  · rw [← List.cons_append, List.getLast?_concat]
    rintro last
    cases last
    exact absurd h (by decide)

theorem key_quoted {mark : Char} (h : isMark mark = true) (content : List Char) :
    key (mark :: (content ++ [mark])) =
      (unescape mark (mark :: (content ++ [mark])) content).map fun name =>
        .name (String.ofList name) := by
  have unquoted : key (mark :: (content ++ [mark])) =
      (unquote mark (mark :: (content ++ [mark]))).map .name := by
    rcases isMark_iff.mp h with rfl | rfl <;> rfl
  rw [unquoted, unquote_eq]
  cases unescape mark (mark :: (content ++ [mark])) content <;> rfl

/-- A text inside its marks is a key, and has the flaw of its name if it has one. -/
theorem classify_inside {mark : Char} (h : isMark mark = true) {content : List Char}
    (inside : Inside mark content) :
    classify (mark :: (content ++ [mark])) =
      (unescape mark (mark :: (content ++ [mark])) content).map fun name =>
        .property (.name (String.ofList name)) := by
  have comma : mark ≠ ',' := by
    rintro rfl
    exact absurd h (by decide)
  have colon : mark ≠ ':' := by
    rintro rfl
    exact absurd h (by decide)
  rw [classify_quoted h, selector, (solid_quoted h comma inside).split]
  dsimp only
  rw [(solid_quoted h colon inside).split]
  dsimp only
  rw [key_quoted h]
  cases unescape mark (mark :: (content ++ [mark])) content <;> rfl

theorem exists_of_classify_quoted {mark : Char} (h : isMark mark = true) {content : List Char}
    {k : Key} (classified : classify (mark :: (content ++ [mark])) = .ok (.property k)) :
    ∃ name, unescape mark (mark :: (content ++ [mark])) content = .ok name ∧
      k = .name (String.ofList name) := by
  rw [classify_quoted h, selector] at classified
  split at classified
  · obtain ⟨_, _, same⟩ := map_eq_ok_iff.mp classified
    cases same
  split at classified
  · obtain ⟨_, _, same⟩ := map_eq_ok_iff.mp classified
    cases same
  · obtain ⟨k', key, same⟩ := map_eq_ok_iff.mp classified
    cases same
    rw [key_quoted h] at key
    exact map_eq_ok_iff.mp key

end Subscript

namespace Step

open Quote Subscript

def quotedPath (mark : Char) (content : List Char) : String :=
  String.ofList (Scan.quotedText mark content)

theorem parse_quotedPath (mark : Char) (content : List Char) :
    parse (quotedPath mark content) = (Scan.steps (Scan.quotedText mark content)).mapError
      fun failure => .path (quotedPath mark content) failure.position failure.flaw := by
  have root : Text.isBlank '$' = false := by decide
  have notBlank : (quotedPath mark content).toList.all Text.isBlank = false := by
    rw [quotedPath, String.toList_ofList, Scan.quotedText, List.all_cons, root, Bool.false_and]
  rw [parse_eq notBlank, quotedPath, String.toList_ofList]

section

variable {mark : Char} (h : isMark mark = true) (content : List Char)

include h

/-- A text between two marks is accepted as a name if it denotes the name, by the codes that are read. -/
theorem parse_quotedPath_eq_ok_iff (n : String) :
    parse (quotedPath mark content) = .ok [.root, .property (.name n)] ↔
      ∃ name, Reads mark UpToFour content name ∧ n = String.ofList name := by
  constructor
  · intro parsed
    obtain ⟨_, scanned⟩ := parse_eq_ok_iff.mp parsed
    have classified := Scan.classify_of_steps scanned
    rw [Text.trim_eq_self (trimmed_quoted h content)] at classified
    obtain ⟨name, decoded, same⟩ := exists_of_classify_quoted h classified
    cases same
    exact ⟨name, unescape_eq_ok_iff.mp decoded, rfl⟩
  · rintro ⟨name, reads, rfl⟩
    have inside := reads.inside h
    rw [parse_quotedPath, Scan.steps_quotedText h inside, classify_inside h inside,
      unescape_of_reads _ reads]
    rfl

/-- Without the mark inside, a text that is not accepted is a syntax error in the brackets. -/
theorem exists_flaw_of_not_reads (unmarked : ¬ HasMark mark content)
    (none : ¬ ∃ name, Reads mark UpToFour content name) :
    ∃ flaw, parse (quotedPath mark content) = .error (.path (quotedPath mark content) 2 flaw) := by
  rw [parse_quotedPath]
  rcases hasMark_or_inside mark content with marked | inside | ⟨body, rfl, inside⟩
  · exact absurd marked unmarked
  · rw [Scan.steps_quotedText h inside, classify_inside h inside]
    cases decoded : unescape mark (mark :: (content ++ [mark])) content with
    | error flaw => exact ⟨flaw, rfl⟩
    | ok name => exact absurd ⟨name, unescape_eq_ok_iff.mp decoded⟩ none
  · rw [Scan.steps_dangling h inside]
    exact ⟨.unterminatedString, rfl⟩

/-- A text between two marks that denotes a name, with codes of four hexadecimal digits, is accepted as
that name.  If no code stands in front of a plus sign or of fewer than four characters, no other text is
accepted as a name, and one without the mark inside is a syntax error.  Otherwise the text denotes no name
but is accepted if it does with codes of up to four characters. -/
theorem accepts_quoted :
    (∀ name, Reads mark FourDigits content name →
      parse (quotedPath mark content) = .ok [.root, .property (.name (String.ofList name))]) ∧
    (¬ Loose mark content →
      (∀ n, parse (quotedPath mark content) = .ok [.root, .property (.name n)] ↔
        ∃ name, Reads mark FourDigits content name ∧ n = String.ofList name) ∧
      ((¬ ∃ name, Reads mark FourDigits content name) → ¬ HasMark mark content →
        ∃ flaw, parse (quotedPath mark content) =
          .error (.path (quotedPath mark content) 2 flaw))) ∧
    (Loose mark content →
      (¬ ∃ name, Reads mark FourDigits content name) ∧
      ∀ n, parse (quotedPath mark content) = .ok [.root, .property (.name n)] ↔
        ∃ name, Reads mark UpToFour content name ∧ n = String.ofList name) := by
  refine ⟨?_, ?_, ?_⟩
  · intro name reads
    exact (parse_quotedPath_eq_ok_iff h content _).mpr ⟨name, reads.upToFour, rfl⟩
  · intro firm
    refine ⟨?_, ?_⟩
    · intro n
      rw [parse_quotedPath_eq_ok_iff h]
      constructor
      · rintro ⟨name, reads, same⟩
        exact ⟨name, reads.fourDigits h firm, same⟩
      · rintro ⟨name, reads, same⟩
        exact ⟨name, reads.upToFour, same⟩
    · intro none unmarked
      refine exists_flaw_of_not_reads h content unmarked ?_
      rintro ⟨name, reads⟩
      exact none ⟨name, reads.fourDigits h firm⟩
  · intro loose
    refine ⟨?_, parse_quotedPath_eq_ok_iff h content⟩
    rintro ⟨name, reads⟩
    exact reads.firm loose

end

/-- Escapes that denote their characters, one that is not listed, and a code of two digits. -/
theorem accepts_quoted_escapes :
    isMark '\'' = true ∧
    parse "$['\\n\\u0041']" = .ok [.root, .property (.name "\nA")] ∧
    (∃ flaw, parse "$['\\q']" = .error (.path "$['\\q']" 2 flaw)) ∧
    parse "$['\\u41']" = .ok [.root, .property (.name "A")] := by
  have quote : isMark '\'' = true := by decide
  refine ⟨quote, ?_, ?_, ?_⟩
  · refine (accepts_quoted quote ['\\', 'n', '\\', 'u', '0', '0', '4', '1']).1 ['\n', 'A'] ?_
    have code : FourDigits ['0', '0', '4', '1'] [] 'A' := ⟨rfl, by decide⟩
    exact .escape .lineFeed (.code code .nil)
  · have firm : ¬ Loose '\'' ['\\', 'q'] := by
      rintro ⟨before, rest, text, _⟩
      have mem : 'u' ∈ ['\\', 'q'] := by
        rw [text]
        simp
      exact absurd mem (by decide)
    refine ((accepts_quoted quote ['\\', 'q']).2.1 firm).2 ?_ ?_
    · rintro ⟨name, reads⟩
      cases reads with
      | plain _ ne _ => exact ne rfl
      | escape escape _ => cases escape
    · rintro ⟨before, rest, text, _⟩
      have mem : '\'' ∈ ['\\', 'q'] := by
        rw [text]
        simp
      exact absurd mem (by decide)
  · have loose : Loose '\'' ['\\', 'u', '4', '1'] := ⟨[], ['4', '1'], rfl, .nil, .inr (by decide)⟩
    have code : UpToFour ['4', '1'] [] 'A' :=
      ⟨.inr ⟨by decide, rfl⟩, ['4', '1'], .inl rfl, by decide⟩
    refine (((accepts_quoted quote ['\\', 'u', '4', '1']).2.2 loose).2 "A").mpr ⟨['A'], ?_, rfl⟩
    exact .code code .nil

/-- Two hexadecimal digits are read as the code of a character, though by the grammar of names they are
none. -/
theorem accepts_short_code :
    parse "$['\\u41']" = .ok [.root, .property (.name "A")] ∧
      ¬ ∃ name, Reads '\'' FourDigits ['\\', 'u', '4', '1'] name := by
  refine ⟨?_, ?_⟩
  · have quote : isMark '\'' = true := by decide
    have code : UpToFour ['4', '1'] [] 'A' :=
      ⟨.inr ⟨by decide, rfl⟩, ['4', '1'], .inl rfl, by decide⟩
    refine (parse_quotedPath_eq_ok_iff quote ['\\', 'u', '4', '1'] "A").mpr ⟨['A'], ?_, rfl⟩
    exact .code code .nil
  · rintro ⟨name, reads⟩
    exact reads.firm ⟨[], ['4', '1'], rfl, .nil, .inr (by decide)⟩

end Step

end TreePath
