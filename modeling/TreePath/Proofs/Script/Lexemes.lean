/-
# Lexemes — how lexemes are spelled

`takeToken?` cuts a lexeme off the front of a text.  `Spells` says which texts are spellings of which lexemes,
without cutting anything.

* What is taken off a text is the spelling of a lexeme (`exists_spells`).
* Conversely a spelling is taken whole, and no more than it, unless what follows makes it longer
  (`Spells.takeToken?`).  After a name or a number that is a character that could go on it, after an operator
  an equals sign: `Token.Allows` is the condition on what follows.

Lexemes of marks are taken in the order of a list.  That this is the longest one rests on a property of the
list, that of two which begin alike the longer is first (`symbols_pairwise`).
-/
import TreePath.Proofs.Path.Quotation
import TreePath.Proofs.Script.Numbers
import TreePath.Script.Lexemes

namespace TreePath

namespace Script

open Quote (Inside isMark isMark_iff)

/-- A name of a member. -/
structure NameText where
  first : Char
  others : List Char
  isStart : isNameStart first = true
  isName : ∀ c ∈ others, isNameChar c = true

def NameText.text (name : NameText) : List Char :=
  name.first :: name.others

/-- How a lexeme is spelled. -/
inductive Spells : Token → List Char → Prop
  | value : Spells .value ['@']
  | path : Spells .path ['@', 'p', 'a', 't', 'h']
  | member (name : NameText) : Spells (.member (String.ofList name.text)) ('.' :: name.text)
  | number (n : NumberText) : Spells (.literal (.number n.value)) n.text
  | string {mark : Char} {body : List Char} : isMark mark = true → Inside mark body →
      Spells (.literal (.string (String.ofList body))) (mark :: (body ++ [mark]))
  | keyword {word : List Char} {literal : Literal} : (word, literal) ∈ keywords →
      Spells (.literal literal) word
  | symbol {marks : List Char} {token : Token} : (marks, token) ∈ symbols → Spells token marks

/-- Whether a lexeme completes an operand. -/
def Token.endsOperand : Token → Bool
  | .literal _ => true
  | .value => true
  | .path => true
  | .member _ => true
  | .closeParen => true
  | .closeBracket => true
  | _ => false

/-- The text after a lexeme does not make it longer. -/
def Token.Allows (token : Token) (after : List Char) : Prop :=
  if token.endsOperand then EndsNumber after else after.head? ≠ some '='

/-! ## Characters that lexemes begin with -/

theorem not_isDigit_of_isNameStart {c : Char} (h : isNameStart c = true) : c.isDigit = false := by
  simp only [isNameStart, Bool.or_eq_true, decide_eq_true_eq] at h
  rcases h with (h | rfl) | rfl
  · rw [Bool.eq_false_iff]
    intro digit
    have letter := Text.isAlpha_iff.mp h
    have number := Text.isDigit_iff.mp digit
    omega
  · rfl
  · rfl

theorem NameText.all_isNameChar (name : NameText) : ∀ c ∈ name.text, isNameChar c = true := by
  intro c mem
  rcases List.mem_cons.mp mem with rfl | mem
  · exact isNameChar_iff.mpr (.inl name.isStart)
  · exact name.isName c mem

/-- A lexeme that begins with a character of names is a number or a keyword. -/
theorem takeToken?_of_isNameChar {c : Char} (h : isNameChar c = true) (rest : List Char) :
    takeToken? c rest =
      if c.isDigit then
        some (.literal (.number (takeNumber (c :: rest)).1), (takeNumber (c :: rest)).2)
      else takeKeyword? (c :: rest) := by
  have other : c ≠ '@' ∧ c ≠ '.' ∧ ¬ (c = '"' ∨ c = '\'') := by
    refine ⟨?_, ?_, ?_⟩
    · rintro rfl
      cases h
    · rintro rfl
      cases h
    · rintro (rfl | rfl) <;> cases h
  rw [takeToken?, if_neg other.1, if_neg other.2.1, if_neg other.2.2]
  split
  · rfl
  · rename_i digit
    rw [if_pos ((isNameChar_iff.mp h).resolve_right digit)]

theorem isGap_iff {c : Char} : isGap c = true ↔ c = ' ' ∨ c = '\t' ∨ c = '\r' ∨ c = '\n' := by
  simp only [isGap, Bool.or_eq_true, decide_eq_true_eq, or_assoc]

theorem not_isGap_of_isNameChar {c : Char} (h : isNameChar c = true) : isGap c = false := by
  rw [Bool.eq_false_iff]
  intro gap
  rcases isGap_iff.mp gap with rfl | rfl | rfl | rfl <;> cases h

/-- Whether a lexeme that begins with the character is written with marks only. -/
def isSymbolHead (c : Char) : Bool :=
  !isNameChar c && c ≠ '@' && c ≠ '.' && c ≠ '"' && c ≠ '\'' && !isGap c

theorem symbols_head : ∀ entry ∈ symbols, entry.1.head?.any isSymbolHead = true := by
  decide

theorem takeToken?_of_isSymbolHead {c : Char} (h : isSymbolHead c = true) (rest : List Char) :
    takeToken? c rest = takeSymbol? (c :: rest) := by
  simp only [isSymbolHead, Bool.and_eq_true, Bool.not_eq_true', decide_eq_true_eq] at h
  obtain ⟨⟨⟨⟨⟨name, value⟩, dot⟩, double⟩, single⟩, -⟩ := h
  rw [Bool.eq_false_iff, Ne, isNameChar_iff, not_or] at name
  rw [takeToken?, if_neg value, if_neg dot, if_neg (not_or.mpr ⟨double, single⟩),
    if_neg name.2, if_neg name.1]

theorem keywords_all : ∀ entry ∈ keywords, entry.1.all isNameChar = true := by
  decide

theorem keywords_head : ∀ entry ∈ keywords, entry.1.head?.any isNameStart = true := by
  decide

theorem lookup_keywords : ∀ entry ∈ keywords, keywords.lookup entry.1 = some entry.2 := by
  decide

theorem exists_cons_of_head {p : Char → Bool} {text : List Char} (h : text.head?.any p = true) :
    ∃ c rest, text = c :: rest ∧ p c = true := by
  cases text with
  | nil => cases h
  | cons c rest => exact ⟨c, rest, rfl, h⟩

/-! ## A lexeme is taken whole -/

theorem takeBinding_value {after : List Char} (stops : Stops isNameChar after) :
    takeBinding after = (.value, after) := by
  rw [takeBinding]
  split
  · rename_i rest h
    rw [List.isPrefixOf?_eq_some_iff_append_eq] at h
    rw [← h] at stops
    cases stops
  · rfl

theorem takeBinding_path {after : List Char} (stops : Stops isNameChar after) :
    takeBinding ('p' :: 'a' :: 't' :: 'h' :: after) = (.path, after) := by
  have found : ['p', 'a', 't', 'h'].isPrefixOf? ('p' :: 'a' :: 't' :: 'h' :: after) = some after :=
    List.isPrefixOf?_eq_some_iff_append_eq.mpr rfl
  have stops : continuesName after = false := stops
  rw [takeBinding, found]
  dsimp only
  rw [stops]
  rfl

theorem takeMember?_append (name : NameText) {after : List Char} (stops : Stops isNameChar after) :
    takeMember? (name.text ++ after) = some (.member (String.ofList name.text), after) := by
  obtain ⟨taken, left⟩ := takeWhile_append_of_stops name.all_isNameChar stops
  rw [takeMember?, taken, left]
  exact if_pos name.isStart

theorem takeString?_append {mark : Char} {body : List Char} (inside : Inside mark body)
    (escape : mark ≠ '\\') (after : List Char) :
    takeString? mark (body ++ mark :: after) = some (body, after) := by
  induction inside with
  | nil =>
      rw [List.nil_append, takeString?.eq_4 _ _ _ (fun eq _ => escape eq) fun _ _ eq _ => escape eq,
        if_pos rfl]
  | @plain c rest ne ne' _ ih =>
      rw [List.cons_append,
        takeString?.eq_4 _ _ _ (fun eq _ => ne' eq) fun _ _ eq _ => ne' eq, if_neg ne, ih]
      rfl
  | @escape c rest _ ih =>
      rw [List.cons_append, List.cons_append, takeString?, ih]
      rfl

theorem takeKeyword?_append {word : List Char} {literal : Literal} (mem : (word, literal) ∈ keywords)
    {after : List Char} (stops : Stops isNameChar after) :
    takeKeyword? (word ++ after) = some (.literal literal, after) := by
  obtain ⟨taken, left⟩ :=
    takeWhile_append_of_stops (List.all_eq_true.mp (keywords_all _ mem)) stops
  rw [takeKeyword?, taken, left, lookup_keywords _ mem]
  rfl

theorem symbols_pairwise : symbols.Pairwise fun longer entry =>
    ¬ longer.1 <+: entry.1 ∧
      (entry.1 <+: longer.1 → entry.2.endsOperand = false ∧ entry.1 ++ ['='] <+: longer.1) := by
  decide

theorem isPrefixOf?_eq_none {longer marks after : List Char} (notPrefix : ¬ longer <+: marks)
    (goesOn : marks <+: longer → after.head? ≠ some '=' ∧ marks ++ ['='] <+: longer) :
    longer.isPrefixOf? (marks ++ after) = none := by
  cases found : longer.isPrefixOf? (marks ++ after) with
  | none => rfl
  | some rest =>
      have isPrefix : longer <+: marks ++ after :=
        ⟨rest, List.isPrefixOf?_eq_some_iff_append_eq.mp found⟩
      rcases List.prefix_or_prefix_of_prefix isPrefix (List.prefix_append _ _) with le | le
      · exact absurd le notPrefix
      · obtain ⟨head, equals⟩ := goesOn le
        obtain ⟨more, eq⟩ := (List.prefix_append_right_inj _).mp (equals.trans isPrefix)
        rw [← eq] at head
        exact absurd rfl head

theorem takeSymbol?_append {marks : List Char} {token : Token} (mem : (marks, token) ∈ symbols)
    {after : List Char} (h : token.endsOperand = false → after.head? ≠ some '=') :
    takeSymbol? (marks ++ after) = some (token, after) := by
  have ordered := symbols_pairwise
  unfold takeSymbol?
  generalize symbols = table at mem ordered ⊢
  induction table with
  | nil => cases mem
  | cons entry entries ih =>
      obtain ⟨spelling, other⟩ := entry
      obtain ⟨head, tail⟩ := List.pairwise_cons.mp ordered
      rw [List.findSome?_cons]
      dsimp only
      rcases List.mem_cons.mp mem with same | mem
      · cases same
        have found : marks.isPrefixOf? (marks ++ after) = some after :=
          List.isPrefixOf?_eq_some_iff_append_eq.mpr rfl
        rw [found]
        rfl
      · obtain ⟨notPrefix, goesOn⟩ := head _ mem
        rw [isPrefixOf?_eq_none notPrefix fun le => (goesOn le).imp_left h]
        exact ih mem tail

/-! ## A lexeme is a spelling -/

theorem Spells.takeToken? {token : Token} {text after : List Char} (spells : Spells token text)
    (allows : token.Allows after) :
    ∃ c rest, text ++ after = c :: rest ∧ isGap c = false ∧
      takeToken? c rest = some (token, after) := by
  cases spells with
  | value => exact ⟨'@', after, rfl, rfl, congrArg some (takeBinding_value allows.name)⟩
  | path => exact ⟨'@', _, rfl, rfl, congrArg some (takeBinding_path allows.name)⟩
  | member name => exact ⟨'.', _, rfl, rfl, takeMember?_append name allows.name⟩
  | number n =>
      obtain ⟨c, others, eq, digit⟩ := n.whole.exists_cons
      have name := isNameChar_iff.mpr (.inr digit)
      obtain ⟨more, first⟩ : ∃ more, n.text ++ after = c :: more :=
        ⟨_, by rw [NumberText.text, eq]; rfl⟩
      refine ⟨c, more, first, not_isGap_of_isNameChar name, ?_⟩
      rw [takeToken?_of_isNameChar name, if_pos digit, ← first, n.takeNumber_append allows]
  | @string mark body isMark inside =>
      have quoted : takeQuoted? mark (body ++ mark :: after) =
          some (.literal (.string (String.ofList body)), after) := by
        rw [takeQuoted?, takeString?_append inside (Quote.ne_escape_of_isMark isMark)]
        rfl
      refine ⟨mark, body ++ mark :: after, by simp, ?_, ?_⟩
      · rcases isMark_iff.mp isMark with rfl | rfl <;> rfl
      · rcases isMark_iff.mp isMark with rfl | rfl
        · exact quoted
        · exact quoted
  | @keyword word literal mem =>
      have taken := takeKeyword?_append mem allows.name
      obtain ⟨c, others, rfl, start⟩ := exists_cons_of_head (keywords_head _ mem)
      have name := isNameChar_iff.mpr (.inl start)
      refine ⟨c, _, rfl, not_isGap_of_isNameChar name, ?_⟩
      rw [takeToken?_of_isNameChar name, not_isDigit_of_isNameStart start]
      exact taken
  | symbol mem =>
      have taken : takeSymbol? (text ++ after) = some (token, after) := by
        refine takeSymbol?_append mem ?_
        intro operator
        rwa [Token.Allows, operator] at allows
      obtain ⟨c, others, rfl, head⟩ := exists_cons_of_head (symbols_head _ mem)
      refine ⟨c, _, rfl, ?_, (takeToken?_of_isSymbolHead head _).trans taken⟩
      rw [isSymbolHead, Bool.and_eq_true, Bool.not_eq_true'] at head
      exact head.2

theorem exists_inside {mark : Char} {text body after : List Char}
    (h : takeString? mark text = some (body, after)) :
    text = body ++ mark :: after ∧ Inside mark body := by
  fun_induction takeString? mark text generalizing body with
  | case1 => cases h
  | case2 => cases h
  | case3 c rest ih =>
      simp only [Option.map_eq_some_iff, Prod.mk.injEq, Prod.exists] at h
      obtain ⟨body, _, taken, rfl, rfl⟩ := h
      obtain ⟨rfl, inside⟩ := ih taken
      exact ⟨rfl, .escape inside⟩
  | case4 rest =>
      cases h
      exact ⟨rfl, .nil⟩
  | case5 c rest notLast notEscape ne ih =>
      simp only [Option.map_eq_some_iff, Prod.mk.injEq, Prod.exists] at h
      obtain ⟨body, _, taken, rfl, rfl⟩ := h
      obtain ⟨rfl, inside⟩ := ih taken
      refine ⟨rfl, .plain ne ?_ inside⟩
      rintro rfl
      cases body with
      | nil => exact notEscape _ _ rfl rfl
      | cons c body => exact notEscape _ _ rfl rfl

theorem exists_keyword {text after : List Char} {token : Token}
    (h : takeKeyword? text = some (token, after)) :
    ∃ word, text = word ++ after ∧ Spells token word := by
  simp only [takeKeyword?, Option.map_eq_some_iff, Prod.mk.injEq] at h
  obtain ⟨literal, found, rfl, rfl⟩ := h
  obtain ⟨before, more, eq, -⟩ := List.lookup_eq_some_iff.mp found
  refine ⟨_, List.takeWhile_append_dropWhile.symm, .keyword (eq ▸ ?_)⟩
  exact List.mem_append_right _ List.mem_cons_self

theorem exists_symbol {text after : List Char} {token : Token}
    (h : takeSymbol? text = some (token, after)) :
    ∃ marks, text = marks ++ after ∧ Spells token marks := by
  obtain ⟨⟨marks, symbol⟩, mem, found⟩ := List.exists_of_findSome?_eq_some h
  simp only [Option.map_eq_some_iff, Prod.mk.injEq] at found
  obtain ⟨rest, isPrefix, rfl, rfl⟩ := found
  exact ⟨marks, (append_of_isPrefixOf? isPrefix).symm, .symbol mem⟩

theorem exists_binding {rest after : List Char} {token : Token}
    (h : takeBinding rest = (token, after)) :
    ∃ text, '@' :: rest = text ++ after ∧ Spells token text := by
  unfold takeBinding at h
  split at h
  · rename_i more isPrefix
    split at h
    · cases h
      exact ⟨['@'], rfl, .value⟩
    · cases h
      exact ⟨_, congrArg _ (append_of_isPrefixOf? isPrefix).symm, .path⟩
  · cases h
    exact ⟨['@'], rfl, .value⟩

theorem exists_member {rest after : List Char} {token : Token}
    (h : takeMember? rest = some (token, after)) :
    ∃ text, '.' :: rest = text ++ after ∧ Spells token text := by
  unfold takeMember? at h
  split at h
  · rename_i start
    obtain ⟨c, others, rfl, start⟩ := exists_cons_of_head start
    cases h
    have name := isNameChar_iff.mpr (.inl start)
    let text : NameText := ⟨c, others.takeWhile isNameChar, start, fun _ => List.mem_takeWhile_imp⟩
    rw [List.takeWhile_cons_of_pos name, List.dropWhile_cons_of_pos name]
    refine ⟨'.' :: text.text, ?_, .member text⟩
    exact congrArg _ (congrArg _ List.takeWhile_append_dropWhile.symm)
  · cases h

theorem exists_spells {c : Char} {rest after : List Char} {token : Token}
    (h : takeToken? c rest = some (token, after)) :
    ∃ text, c :: rest = text ++ after ∧ Spells token text := by
  unfold takeToken? at h
  split at h
  · rename_i sigil
    rw [sigil]
    exact exists_binding (Option.some.inj h)
  split at h
  · rename_i dot
    rw [dot]
    exact exists_member h
  split at h
  · rename_i mark
    have isMark := isMark_iff.mpr mark.symm
    simp only [takeQuoted?, Option.map_eq_some_iff, Prod.mk.injEq, Prod.exists] at h
    obtain ⟨body, _, taken, rfl, rfl⟩ := h
    obtain ⟨rfl, inside⟩ := exists_inside taken
    exact ⟨c :: (body ++ [c]), by simp, .string isMark inside⟩
  split at h
  · rename_i digit
    cases h
    obtain ⟨n, eq, value⟩ := exists_number digit rfl
    rw [value]
    exact ⟨n.text, eq, .number n⟩
  split at h
  · exact exists_keyword h
  · exact exists_symbol h

end Script

end TreePath
