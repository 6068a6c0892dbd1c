/-
# Subscripts — what the text between brackets stands for

A key is written as a numeral or as a name in quotes.  Such a text denotes its key alone and among others in a
list, for every name.  `Denotes` collects what a text needs for both, so that `Denotes.classify` and
`classify_join` need not know how the key was written.

The difficulty is in what does *not* fit.  A bracket is classified by the first form that it has, so each
lemma shows that the text is none of the forms before: not enclosed in parentheses, no call, no path
(`classify_eq_selector`), and cut by no comma or colon that belongs to a name.

The text of a slice denotes that slice (`slice_text`, `classify_slice`), if its bounds are words and its step
is not zero: bounds that were written are read back, by the reading of numerals.
-/
import TreePath.Proofs.Path.Quotation

namespace TreePath

namespace Subscript

open Quote

/-! ## Text that is neither a call nor a path -/

theorem isSuffixOf?_call {content : List Char} (last : content.getLast? ≠ some ')') :
    ['(', ')'].isSuffixOf? content = none := by
  cases found : ['(', ')'].isSuffixOf? content with
  | none => rfl
  | some name =>
      rw [List.isSuffixOf?_eq_some_iff_append_eq] at found
      subst found
      rw [List.getLast?_append] at last
      exact absurd rfl last

/-- A path in brackets is none of the constructs that are looked for before it. -/
theorem classify_rooted {c : Char} {rest : List Char} (h : c = '.' ∨ c = '[') :
    classify ('$' :: c :: rest) = .ok (.subPath (String.ofList ('$' :: c :: rest))) := by
  have notCall : call? ('$' :: c :: rest) = none := by
    rw [call?]
    cases found : ['(', ')'].isSuffixOf? ('$' :: c :: rest) with
    | none => rfl
    | some name =>
        rw [List.isSuffixOf?_eq_some_iff_append_eq] at found
        cases name with
        | nil => cases found
        | cons d name =>
            rw [(List.cons.inj found).1]
            simp [Option.filter]
  have rooted : isRooted ('$' :: c :: rest) = true := by
    rcases h with rfl | rfl <;> rfl
  rw [classify, if_neg (by simp), if_neg (by simp)]
  simp only [notCall]
  exact if_pos rooted

theorem classify_eq_selector {c : Char} {rest : List Char}
    (head : c ∉ ['*', '(', '?', '$']) (last : (c :: rest).getLast? ≠ some ')') :
    classify (c :: rest) = selector (c :: rest) := by
  simp only [List.mem_cons, List.not_mem_nil, or_false, not_or] at head
  obtain ⟨wildcard, opening, filter, root⟩ := head
  have script : enclosed? (c :: rest) = none := by
    simp only [enclosed?]
    split
    · rename_i eq
      exact absurd (List.cons.inj eq).1 opening
    · rfl
  have prefix' : ['?'].isPrefixOf? (c :: rest) = none := by
    show (if ('?' == c) = true then _ else none) = none
    rw [if_neg (by simpa using Ne.symm filter)]
  have rooted : isRooted (c :: rest) = false := by
    simp only [isRooted]
    split
    · rename_i eq
      exact absurd (List.cons.inj eq).1 root
    · rename_i eq
      exact absurd (List.cons.inj eq).1 root
    · rfl
  rw [classify, if_neg (by simp), if_neg (by simp [wildcard]), script, prefix', call?,
    isSuffixOf?_call last, rooted]
  rfl

/-! ## Keys -/

/-- A text that denotes a key, alone or in a list. -/
structure Denotes (text : List Char) (k : Key) : Prop where
  key : Subscript.key text = .ok k
  solid : ∀ separator, isPlain separator = true → separator.isDigit = false → Solid separator text
  balanced : Balanced text
  trimmed : Text.Trimmed text
  head : ∃ c rest, text = c :: rest ∧ (isMark c = true ∨ c.isDigit = true)
  last : text.getLast? ≠ some ')'

theorem ne_of_isDigit {c d : Char} (h : c.isDigit = true) (h' : d.isDigit = false) : c ≠ d := by
  rintro rfl
  rw [h] at h'
  cases h'

theorem isPlain_of_isDigit {c : Char} (h : c.isDigit = true) : isPlain c = true := by
  have ne : ∀ d : Char, d.isDigit = false → c ≠ d := fun _ => ne_of_isDigit h
  simp [isPlain, isMark, ne '\'' rfl, ne '"' rfl, ne '[' rfl, ne ']' rfl, ne '(' rfl, ne ')' rfl]

theorem denotes_decimal {position : Nat} (h : position < Key.positionBound) :
    Denotes (Nat.toDigits 10 position) (.index position) := by
  have digits : ∀ c ∈ Nat.toDigits 10 position, c.isDigit = true :=
    fun _ => Text.isDigit_of_mem_toDigits
  obtain ⟨c, rest, eq⟩ := List.exists_cons_of_ne_nil (@Nat.toDigits_ne_nil position 10)
  have digit : c.isDigit = true := digits c (by rw [eq]; exact List.mem_cons_self)
  refine ⟨?_, ?_, ?_, Text.trimmed_toDigits position, ⟨c, rest, eq, .inr digit⟩, ?_⟩
  · have plain : (Nat.toDigits 10 position).any (· ∈ ['(', ')', '[', ']', ':']) = false := by
      rw [List.any_eq_false]
      intro d mem
      have := digits d mem
      simp only [decide_eq_true_eq, List.mem_cons, List.not_mem_nil, or_false, not_or]
      refine ⟨?_, ?_, ?_, ?_, ?_⟩ <;> rintro rfl <;> cases this
    have index := Key.canonicalIndex?_toDigits h
    rw [eq] at plain index ⊢
    rw [Subscript.key]
    · rw [plain, Key.ofBare, String.toList_ofList, index]
      rfl
    · intro _ same
      exact ne_of_isDigit digit rfl (List.cons.inj same).1
    · intro _ same
      exact ne_of_isDigit digit rfl (List.cons.inj same).1
  · intro separator _ notDigit
    exact solid_of_plain fun d mem =>
      ⟨isPlain_of_isDigit (digits d mem), ne_of_isDigit (digits d mem) notDigit⟩
  · exact balanced_of_plain fun d mem => isPlain_of_isDigit (digits d mem)
  · intro last
    cases digits _ (List.mem_of_getLast? last)

theorem denotes_quoted {mark : Char} (h : isMark mark = true) {body : List Char} {k : Key}
    (inside : Inside mark body) (key : Subscript.key (mark :: (body ++ [mark])) = .ok k) :
    Denotes (mark :: (body ++ [mark])) k := by
  refine ⟨key, ?_, balanced_quoted h inside, trimmed_quoted h body, ⟨mark, _, rfl, .inl h⟩, ?_⟩
  · intro separator plain _
    refine solid_quoted h ?_ inside
    rintro rfl
    simp only [isPlain, h, Bool.not_true, Bool.false_and] at plain
    cases plain
  · rw [← List.cons_append, List.getLast?_concat]
    rintro eq
    cases eq
    exact absurd h (by decide)

theorem denotes_quoteName (name : String) :
    Denotes (Label.quoteName name).toList (.name name) := by
  have key := Label.key_quoteName name
  rw [Label.toList_quoteName] at key ⊢
  exact denotes_quoted rfl (Label.inside_escapeName name.toList) key

theorem denotes_writeString (name : String) :
    Denotes (Json.writeString name).toList (.name name) := by
  have key := Json.key_writeString name
  rw [Json.toList_writeString] at key ⊢
  exact denotes_quoted rfl (Json.inside_escape name.toList) key

theorem Denotes.listKey {text : List Char} {k : Key} (h : Denotes text k) :
    listKey text = .ok k := by
  obtain ⟨c, rest, eq, head⟩ := h.head
  have key := h.key
  have wildcard : c ≠ '*' := by
    rintro rfl
    revert head
    decide
  rw [eq] at key ⊢
  rw [Subscript.listKey]
  · exact key
  · intro same
    cases same
  · intro same
    exact wildcard (List.cons.inj same).1

theorem Denotes.head_notMem {text : List Char} {k : Key} (h : Denotes text k) :
    ∃ c rest, text = c :: rest ∧ c ∉ ['*', '(', '?', '$'] := by
  obtain ⟨c, rest, eq, head⟩ := h.head
  refine ⟨c, rest, eq, ?_⟩
  simp only [List.mem_cons, List.not_mem_nil, or_false, not_or]
  refine ⟨?_, ?_, ?_, ?_⟩ <;> rintro rfl <;> exact absurd head (by decide)

theorem Denotes.classify {text : List Char} {k : Key} (h : Denotes text k) :
    classify text = .ok (.property k) := by
  obtain ⟨c, rest, eq, head⟩ := h.head_notMem
  have selector' : Subscript.classify text = selector text := by
    have last := h.last
    rw [eq] at last ⊢
    exact classify_eq_selector head last
  rw [selector', selector, (h.solid ',' rfl rfl).split]
  dsimp only
  rw [(h.solid ':' rfl rfl).split]
  dsimp only
  rw [h.key]
  rfl

/-! ## Lists -/

/-- The texts of a list, separated by commas. -/
def join (first : List Char) (others : List (List Char)) : List Char :=
  first ++ others.flatMap (',' :: ·)

theorem join_cons (first second : List Char) (others : List (List Char)) :
    join first (second :: others) = first ++ ',' :: join second others := by
  rw [join, List.flatMap_cons, List.cons_append, join]

section join

variable {α : Type} {keyText : α → List Char} {keyOf : α → Key}
  (each : ∀ a, Denotes (keyText a) (keyOf a))

include each

theorem mapM_listKey (items : List α) :
    (items.map keyText).mapM (fun part => listKey (Text.trim part)) = .ok (items.map keyOf) := by
  induction items with
  | nil => rfl
  | cons a rest ih =>
      rw [List.map_cons, List.mapM_cons, Text.trim_eq_self (each a).trimmed, (each a).listKey, ih]
      rfl

theorem balanced_join (first : α) (others : List α) :
    Balanced (join (keyText first) (others.map keyText)) := by
  induction others generalizing first with
  | nil =>
      rw [List.map_nil, join, List.flatMap_nil, List.append_nil]
      exact (each first).balanced
  | cons second others ih =>
      rw [List.map_cons, join_cons]
      exact (each first).balanced.append (.plain rfl (ih second))

theorem getLast?_join (first : α) (others : List α) :
    ∃ a, (join (keyText first) (others.map keyText)).getLast? = (keyText a).getLast? := by
  induction others generalizing first with
  | nil =>
      refine ⟨first, ?_⟩
      rw [List.map_nil, join, List.flatMap_nil, List.append_nil]
  | cons second others ih =>
      obtain ⟨a, last⟩ := ih second
      obtain ⟨c, rest, eq, _⟩ := (each second).head
      have nonempty : join (keyText second) (others.map keyText) ≠ [] := by
        rw [join, eq]
        simp
      refine ⟨a, ?_⟩
      rw [List.map_cons, join_cons, List.getLast?_append_of_ne_nil _ (by simp),
        List.getLast?_cons_of_ne_nil nonempty, last]

theorem trimmed_join (first : α) (others : List α) :
    Text.Trimmed (join (keyText first) (others.map keyText)) := by
  obtain ⟨a, last⟩ := getLast?_join each first others
  obtain ⟨c, rest, eq, _⟩ := (each first).head
  refine ⟨?_, by rw [last]; exact (each a).trimmed.2⟩
  intro d head
  rw [join, eq, List.cons_append, List.head?_cons] at head
  refine (each first).trimmed.1 d ?_
  rw [eq]
  exact head

theorem classify_join (first second : α) (others : List α) :
    classify (join (keyText first) ((second :: others).map keyText)) =
      .ok (.propertyList ((first :: second :: others).map keyOf)) := by
  obtain ⟨a, last⟩ := getLast?_join each first (second :: others)
  obtain ⟨c, rest, eq, head⟩ := (each first).head_notMem
  have selector' : ∀ text, text = join (keyText first) ((second :: others).map keyText) →
      classify text = selector text := by
    rintro text rfl
    rw [join, eq, List.cons_append]
    refine classify_eq_selector head ?_
    rw [← List.cons_append, ← eq]
    show (join _ _).getLast? ≠ _
    rw [last]
    exact (each a).last
  have solid : ∀ text ∈ keyText first :: (second :: others).map keyText, Solid ',' text := by
    intro text mem
    rw [← List.map_cons] at mem
    obtain ⟨b, _, rfl⟩ := List.mem_map.mp mem
    exact (each b).solid ',' rfl rfl
  rw [selector' _ rfl, selector, join, split_join rfl _ _ solid, List.map_cons]
  show Except.map Step.propertyList (List.mapM _ (List.map keyText (first :: second :: others))) = _
  rw [mapM_listKey each]
  rfl

end join

end Subscript

/-! ## Slices -/

namespace Slice

/-- A bound is a word if it is there. -/
def InWords (bound : Option Int) : Prop :=
  ∀ n, bound = some n → minWord ≤ n ∧ n ≤ maxWord

/-- The bounds of a slice are words, and its step is not zero. -/
structure Fits (s : Slice) : Prop where
  start : InWords s.start
  stop : InWords s.stop
  step : InWords s.step
  nonzero : s.step ≠ some 0

def isBound (c : Char) : Bool :=
  c.isDigit || c = '-'

theorem toList_signedDecimal (n : Int) :
    (Text.signedDecimal n).toList =
      if n < 0 then '-' :: Nat.toDigits 10 n.natAbs else Nat.toDigits 10 n.natAbs := by
  rw [Text.signedDecimal]
  split
  · rw [String.toList_append, Text.toList_decimal]
    rfl
  · exact Text.toList_decimal _

theorem isBound_of_mem {bound : Option Int} {c : Char} (mem : c ∈ (boundText bound).toList) :
    isBound c = true := by
  have digits : ∀ {n : Nat}, c ∈ Nat.toDigits 10 n → isBound c = true := by
    intro n mem
    rw [isBound, Text.isDigit_of_mem_toDigits mem, Bool.true_or]
  cases bound with
  | none => cases mem
  | some n =>
      rw [boundText, Option.map_some, Option.getD_some, toList_signedDecimal] at mem
      split at mem
      · rcases List.mem_cons.mp mem with rfl | mem
        · rfl
        · exact digits mem
      · exact digits mem

theorem isBlank_of_isBound {c : Char} (h : isBound c = true) : Text.isBlank c = false := by
  simp only [isBound, Bool.or_eq_true, decide_eq_true_eq] at h
  rcases h with digit | rfl
  · exact Text.isBlank_of_isDigit digit
  · decide

theorem trimmed_boundText (bound : Option Int) : Text.Trimmed (boundText bound).toList :=
  Text.trimmed_of_forall fun _ mem => isBlank_of_isBound (isBound_of_mem mem)

end Slice

namespace Subscript

open Quote Slice

section bound

variable (content : List Char) (n : Nat)

theorem all_isDigit_toDigits : (Nat.toDigits 10 n).all Char.isDigit = true :=
  List.all_eq_true.mpr fun _ => Text.isDigit_of_mem_toDigits

theorem isEmpty_toDigits : (Nat.toDigits 10 n).isEmpty = false :=
  List.isEmpty_eq_false_iff.mpr Nat.toDigits_ne_nil

theorem bound_toDigits (high : (n : Int) ≤ maxWord) :
    bound content (Nat.toDigits 10 n) = .ok (some n) := by
  have digits := all_isDigit_toDigits n
  have nonempty := isEmpty_toDigits n
  have value := Text.ofDigits_toDigits n
  obtain ⟨c, rest, eq⟩ := List.exists_cons_of_ne_nil (@Nat.toDigits_ne_nil n 10)
  have positive : c ≠ '-' := by
    refine ne_of_isDigit ?_ rfl
    exact Text.isDigit_of_mem_toDigits (eq ▸ List.mem_cons_self)
  have low : minWord ≤ (n : Int) := by
    have : minWord = -2 ^ 63 := rfl
    omega
  rw [eq] at digits nonempty value ⊢
  unfold bound
  split
  · contradiction
  · split
    · rename_i same
      split at same
      · rename_i eq'
        exact absurd (List.cons.inj eq').1 positive
      · cases same
        simp only [digits, List.isEmpty_cons, Bool.not_true, Bool.or_self, Bool.false_eq_true,
          if_false, value]
        rw [if_pos ⟨low, high⟩]

theorem bound_neg_toDigits (low : minWord ≤ -(n : Int)) :
    bound content ('-' :: Nat.toDigits 10 n) = .ok (some (-n)) := by
  have high : -(n : Int) ≤ maxWord := by
    have : maxWord = 2 ^ 63 - 1 := rfl
    omega
  rw [bound]
  rw [if_neg (by simp)]
  simp only [isEmpty_toDigits, all_isDigit_toDigits, Bool.not_true, Bool.or_self,
    Bool.false_eq_true, if_false, if_true, Text.ofDigits_toDigits]
  rw [if_pos ⟨low, high⟩]

end bound

theorem bound_boundText (content : List Char) {b : Option Int} (words : InWords b) :
    bound content (boundText b).toList = .ok b := by
  cases b with
  | none => rfl
  | some n =>
      obtain ⟨low, high⟩ := words n rfl
      rw [boundText, Option.map_some, Option.getD_some, toList_signedDecimal]
      split
      · have abs : -(n.natAbs : Int) = n := by omega
        rw [bound_neg_toDigits _ _ (by omega), abs]
      · have abs : (n.natAbs : Int) = n := by omega
        rw [bound_toDigits _ _ (by omega), abs]

/-- The bounds of a slice as they are written; the second colon only stands before a step. -/
def boundTexts (s : Slice) : List (List Char) :=
  match s.step with
  | none => [(boundText s.stop).toList]
  | some step => [(boundText s.stop).toList, (boundText (some step)).toList]

theorem toList_text (s : Slice) :
    s.text.toList = (boundText s.start).toList ++ (boundTexts s).flatMap (':' :: ·) := by
  rw [Slice.text, boundTexts]
  cases s.step with
  | none => simp
  | some step => simp [boundText]

theorem mem_boundTexts {s : Slice} {text : List Char} (mem : text ∈ boundTexts s) :
    ∃ b, text = (boundText b).toList := by
  rw [boundTexts] at mem
  split at mem
  · exact ⟨_, List.mem_singleton.mp mem⟩
  · rcases List.mem_cons.mp mem with rfl | mem
    · exact ⟨_, rfl⟩
    · exact ⟨_, List.mem_singleton.mp mem⟩

theorem isPlain_of_isBound {c : Char} (h : isBound c = true) : isPlain c = true := by
  simp only [isBound, Bool.or_eq_true, decide_eq_true_eq] at h
  rcases h with digit | rfl
  · exact isPlain_of_isDigit digit
  · rfl

theorem solid_boundText {separator : Char} (h : isBound separator = false) (b : Option Int) :
    Solid separator (boundText b).toList := by
  refine solid_of_plain fun c mem => ⟨isPlain_of_isBound (isBound_of_mem mem), ?_⟩
  rintro rfl
  rw [isBound_of_mem mem] at h
  cases h

theorem splitOn_text (s : Slice) :
    s.text.toList.splitOn ':' = (boundText s.start).toList :: boundTexts s := by
  have plain : ∀ b : Option Int, ∀ c ∈ (boundText b).toList, (c == ':') = false := by
    intro b c mem
    rw [beq_eq_false_iff_ne]
    rintro rfl
    exact absurd (isBound_of_mem mem) (by decide)
  rw [toList_text, List.splitOn_eq_splitOnP, boundTexts]
  cases s.step with
  | none =>
      rw [List.flatMap_singleton, List.splitOnP_append_cons_of_forall_mem (plain _) ':' rfl,
        List.splitOnP_eq_singleton (plain _)]
  | some step =>
      rw [List.flatMap_cons, List.flatMap_singleton, List.cons_append,
        List.splitOnP_append_cons_of_forall_mem (plain _) ':' rfl,
        List.splitOnP_append_cons_of_forall_mem (plain _) ':' rfl,
        List.splitOnP_eq_singleton (plain _)]

theorem slice_text {s : Slice} (fits : s.Fits) : slice s.text.toList = .ok s := by
  have trim : ∀ b : Option Int, Text.trim (boundText b).toList = (boundText b).toList :=
    fun b => Text.trim_eq_self (trimmed_boundText b)
  rw [slice, splitOn_text, List.map_cons, trim]
  obtain ⟨start, stop, step⟩ := s
  cases step with
  | none =>
      show (bound _ (boundText start).toList >>= fun start =>
        bound _ (Text.trim (boundText stop).toList) >>= fun stop => _) = _
      rw [trim, bound_boundText _ fits.start, bound_boundText _ fits.stop]
      rfl
  | some step =>
      show (bound _ (boundText start).toList >>= fun start =>
        bound _ (Text.trim (boundText stop).toList) >>= fun stop =>
          bound _ (Text.trim (boundText (some step)).toList) >>= fun step =>
            if step = some 0 then _ else _) = _
      rw [trim, trim, bound_boundText _ fits.start, bound_boundText _ fits.stop,
        bound_boundText _ fits.step]
      exact if_neg fits.nonzero

theorem isBound_or_colon {s : Slice} {c : Char} (mem : c ∈ s.text.toList) :
    isBound c = true ∨ c = ':' := by
  rw [toList_text, List.mem_append, List.mem_flatMap] at mem
  rcases mem with mem | ⟨text, text_mem, mem⟩
  · exact .inl (isBound_of_mem mem)
  · rcases List.mem_cons.mp mem with rfl | mem
    · exact .inr rfl
    · obtain ⟨b, rfl⟩ := mem_boundTexts text_mem
      exact .inl (isBound_of_mem mem)

theorem trimmed_text (s : Slice) : Text.Trimmed s.text.toList := by
  refine Text.trimmed_of_forall ?_
  intro c mem
  rcases isBound_or_colon mem with isBound | rfl
  · exact isBlank_of_isBound isBound
  · decide

theorem isPlain_of_mem_text {s : Slice} {c : Char} (mem : c ∈ s.text.toList) :
    isPlain c = true := by
  rcases isBound_or_colon mem with isBound | rfl
  · exact isPlain_of_isBound isBound
  · rfl

theorem classify_slice {s : Slice} (fits : s.Fits) : classify s.text.toList = .ok (.slice s) := by
  have ne : ∀ c ∈ s.text.toList, ∀ d, isBound d = false → d ≠ ':' → c ≠ d := by
    rintro c mem d notBound notColon rfl
    rcases isBound_or_colon mem with isBound | colon
    · rw [isBound] at notBound
      cases notBound
    · exact notColon colon
  have colon : ':' ∈ s.text.toList := by
    rw [toList_text, boundTexts]
    split <;> simp
  have selected : classify s.text.toList = selector s.text.toList := by
    have last : s.text.toList.getLast? ≠ some ')' :=
      fun last => ne ')' (List.mem_of_getLast? last) ')' rfl (by decide) rfl
    obtain ⟨c, rest, eq⟩ := List.exists_cons_of_ne_nil (List.ne_nil_of_mem colon)
    rw [eq] at ne last ⊢
    have head := ne c List.mem_cons_self
    refine classify_eq_selector ?_ last
    simp only [List.mem_cons, List.not_mem_nil, or_false, not_or]
    exact ⟨head _ rfl (by decide), head _ rfl (by decide), head _ rfl (by decide),
      head _ rfl (by decide)⟩
  have comma : Solid ',' s.text.toList :=
    solid_of_plain fun c mem => ⟨isPlain_of_mem_text mem, ne c mem ',' rfl (by decide)⟩
  have solid : ∀ text ∈ (boundText s.start).toList :: boundTexts s, Solid ':' text := by
    intro text mem
    rcases List.mem_cons.mp mem with rfl | mem
    · exact solid_boundText rfl s.start
    · obtain ⟨b, rfl⟩ := mem_boundTexts mem
      exact solid_boundText rfl b
  have colons : ∃ first second others, splitOutside ':' .outside 0 s.text.toList =
      first :: second :: others := by
    rw [toList_text, split_join rfl _ _ solid]
    rw [boundTexts]
    split
    · exact ⟨_, _, _, rfl⟩
    · exact ⟨_, _, _, rfl⟩
  obtain ⟨first, second, others, parts⟩ := colons
  rw [selected, selector, comma.split]
  dsimp only
  rw [parts]
  dsimp only
  rw [slice_text fits]
  rfl

end Subscript

end TreePath
