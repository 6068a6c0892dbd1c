/-
# Quotation — what is inside quotes stays there

Three scans of a path skip quoted text: the search for the end of a bracket, the split at a separator and the
decoding of a name.  Each is described on the same two shapes of text, so that a text is shown once to have
the shape and is then known to all three:

* `Inside` is text between two marks, in which the mark and the backslash occur only after a backslash;
* `Balanced` is text whose quotes are closed and whose brackets have their partners.

Texts that are not balanced yet are `Unclosed`, with the closers that are due.

The split leaves a balanced text in one piece where it holds no separator (`Solid`), and `split_join` undoes a
join of such texts.

The two ways of writing a name, in single quotes and as a string of a document, are both inside their marks
and decode to the name (`Label.key_quoteName`, `Json.key_writeString`), for every name.
-/
import Mathlib.Data.List.Basic
import TreePath.Path.Label
import TreePath.Path.Subscript
import TreePath.Proofs.Text.Numerals

namespace TreePath

namespace Quote

/-- Text between two marks: the mark and the backslash occur only after a backslash. -/
inductive Inside (mark : Char) : List Char → Prop
  | nil : Inside mark []
  | plain {c : Char} {rest : List Char} : c ≠ mark → c ≠ '\\' → Inside mark rest →
      Inside mark (c :: rest)
  | escape {c : Char} {rest : List Char} : Inside mark rest → Inside mark ('\\' :: c :: rest)

theorem Inside.append {mark : Char} {a b : List Char} (ha : Inside mark a) (hb : Inside mark b) :
    Inside mark (a ++ b) := by
  induction ha with
  | nil => exact hb
  | plain ne ne' _ ih => exact .plain ne ne' ih
  | escape _ ih => exact .escape ih

theorem inside_flatMap {mark : Char} {write : Char → List Char}
    (each : ∀ c, Inside mark (write c)) (name : List Char) : Inside mark (name.flatMap write) := by
  induction name with
  | nil => exact .nil
  | cons c rest ih => exact (each c).append ih

/-- A character that neither quotes nor nests. -/
def isPlain (c : Char) : Bool :=
  !isMark c && c ≠ '[' && c ≠ ']' && c ≠ '(' && c ≠ ')'

theorem unnested_of_isPlain {c : Char} (plain : isPlain c = true) :
    ¬ (c = '(' ∨ c = '[') ∧ ¬ (c = ')' ∨ c = ']') := by
  constructor <;> rintro (rfl | rfl) <;> cases plain

theorem unnested_of_isMark {c : Char} (mark : isMark c = true) :
    ¬ (c = '(' ∨ c = '[') ∧ ¬ (c = ')' ∨ c = ']') := by
  constructor <;> rintro (rfl | rfl) <;> cases mark

theorem isMark_of_isPlain {c : Char} (plain : isPlain c = true) : isMark c = false := by
  simp only [isPlain, Bool.and_eq_true, Bool.not_eq_true'] at plain
  exact plain.1.1.1.1

theorem next_of_isPlain {c : Char} (plain : isPlain c = true) : Quote.outside.next c = .outside := by
  rw [next, isMark_of_isPlain plain]
  rfl

/-- An opening bracket or parenthesis and the one that closes it. -/
inductive Partners : Char → Char → Prop
  | bracket : Partners '[' ']'
  | parenthesis : Partners '(' ')'

/-- Text whose quotes are closed and whose brackets and parentheses have their partners. -/
inductive Balanced : List Char → Prop
  | nil : Balanced []
  | plain {c : Char} {rest : List Char} : isPlain c = true → Balanced rest → Balanced (c :: rest)
  | quoted {mark : Char} {body rest : List Char} : isMark mark = true → Inside mark body →
      Balanced rest → Balanced (mark :: (body ++ mark :: rest))
  | nested {left right : Char} {body rest : List Char} : Partners left right → Balanced body →
      Balanced rest → Balanced (left :: (body ++ right :: rest))

theorem Balanced.append {a b : List Char} (ha : Balanced a) (hb : Balanced b) :
    Balanced (a ++ b) := by
  induction ha with
  | nil => exact hb
  | plain plain _ ih => exact .plain plain ih
  | quoted mark inside _ ih =>
      rw [List.cons_append, List.append_assoc]
      exact .quoted mark inside ih
  | nested partners body _ _ ih =>
      rw [List.cons_append, List.append_assoc]
      exact .nested partners body ih

theorem balanced_of_plain {text : List Char} (h : ∀ c ∈ text, isPlain c = true) :
    Balanced text := by
  induction text with
  | nil => exact .nil
  | cons c rest ih =>
      exact .plain (h c List.mem_cons_self) (ih fun c mem => h c (List.mem_cons_of_mem _ mem))

theorem balanced_quoted {mark : Char} {body : List Char} (h : isMark mark = true)
    (inside : Inside mark body) : Balanced (mark :: (body ++ [mark])) :=
  .quoted h inside .nil

/-! ## What is open -/

/-- A text in which the brackets with these closers, innermost first, are open. -/
inductive Unclosed : List Char → List Char → Prop
  | balanced {text : List Char} : Balanced text → Unclosed [] text
  | opened {left right : Char} {closers before body : List Char} : Partners left right →
      Unclosed closers before → Balanced body →
      Unclosed (right :: closers) (before ++ left :: body)

namespace Unclosed

variable {closers text : List Char}

theorem append (h : Unclosed closers text) {more : List Char} (balanced : Balanced more) :
    Unclosed closers (text ++ more) := by
  cases h with
  | balanced before => exact .balanced (before.append balanced)
  | opened partners before body =>
      rw [List.append_assoc, List.cons_append]
      exact .opened partners before (body.append balanced)

theorem opening (h : Unclosed closers text) {left right : Char} (partners : Partners left right) :
    Unclosed (right :: closers) (text ++ [left]) :=
  .opened partners h .nil

theorem closing {right : Char} (h : Unclosed (right :: closers) text) :
    Unclosed closers (text ++ [right]) := by
  cases h with
  | opened partners before body =>
      rw [List.append_assoc, List.cons_append]
      exact before.append (.nested partners body .nil)

end Unclosed

/-! ## The split at a separator -/

/-- Puts a text in front of the first of several parts. -/
def prependFirst (text : List Char) (parts : List (List Char)) : List (List Char) :=
  text.foldr consFirst parts

theorem prependFirst_cons (text part : List Char) (parts : List (List Char)) :
    prependFirst text (part :: parts) = (text ++ part) :: parts := by
  induction text with
  | nil => rfl
  | cons c rest ih =>
      show consFirst c (prependFirst rest (part :: parts)) = _
      rw [ih]
      rfl

theorem prependFirst_append (a b : List Char) (parts : List (List Char)) :
    prependFirst (a ++ b) parts = prependFirst a (prependFirst b parts) := by
  simp only [prependFirst, List.foldr_append]

theorem isMark_iff {c : Char} : isMark c = true ↔ c = '\'' ∨ c = '"' := by
  simp only [isMark, Bool.or_eq_true, decide_eq_true_eq]

theorem ne_escape_of_isMark {mark : Char} (h : isMark mark = true) : mark ≠ '\\' := by
  rintro rfl
  exact absurd h (by decide)

theorem isBlank_of_isMark {c : Char} (h : isMark c = true) : Text.isBlank c = false := by
  rcases isMark_iff.mp h with rfl | rfl <;> decide

theorem trimmed_quoted {mark : Char} (h : isMark mark = true) (body : List Char) :
    Text.Trimmed (mark :: (body ++ [mark])) :=
  Text.trimmed_cons_concat (isBlank_of_isMark h) (isBlank_of_isMark h) body

theorem splitOutside_inside {separator mark : Char} (h : isMark mark = true) {body : List Char}
    (inside : Inside mark body) (depth : Nat) (rest : List Char) :
    splitOutside separator (.inside mark) depth (body ++ mark :: rest) =
      prependFirst (body ++ [mark]) (splitOutside separator .outside depth rest) := by
  induction inside with
  | nil =>
      rw [List.nil_append, splitOutside, if_neg (by simp), next, if_neg (ne_escape_of_isMark h),
        if_pos rfl]
      rfl
  | plain ne ne' _ ih =>
      rw [List.cons_append, splitOutside, if_neg (by simp), next, if_neg ne', if_neg ne, ih]
      rfl
  | escape _ ih =>
      rw [List.cons_append, List.cons_append, splitOutside, if_neg (by simp), next, if_pos rfl,
        splitOutside, if_neg (by simp), next, ih]
      rfl

/-- Text that a split at the separator leaves in one piece. -/
def Solid (separator : Char) (text : List Char) : Prop :=
  ∀ rest, splitOutside separator .outside 0 (text ++ rest) =
    prependFirst text (splitOutside separator .outside 0 rest)

theorem solid_nil (separator : Char) : Solid separator [] :=
  fun _ => rfl

theorem Solid.append {separator : Char} {a b : List Char} (ha : Solid separator a)
    (hb : Solid separator b) : Solid separator (a ++ b) := by
  intro rest
  rw [List.append_assoc, ha, hb, prependFirst_append]

theorem solid_plain {separator c : Char} (plain : isPlain c = true) (ne : c ≠ separator) :
    Solid separator [c] := by
  intro rest
  obtain ⟨opens, closes⟩ := unnested_of_isPlain plain
  rw [List.singleton_append, splitOutside, if_pos rfl, if_neg opens, if_neg closes,
    if_neg (by simp [ne]), next_of_isPlain plain]
  rfl

theorem solid_of_plain {separator : Char} {text : List Char}
    (h : ∀ c ∈ text, isPlain c = true ∧ c ≠ separator) : Solid separator text := by
  induction text with
  | nil => exact solid_nil separator
  | cons c rest ih =>
      have head := h c List.mem_cons_self
      exact (solid_plain head.1 head.2).append (ih fun c mem => h c (List.mem_cons_of_mem _ mem))

theorem solid_quoted {separator mark : Char} (h : isMark mark = true) (ne : mark ≠ separator)
    {body : List Char} (inside : Inside mark body) :
    Solid separator (mark :: (body ++ [mark])) := by
  intro rest
  obtain ⟨opens, closes⟩ := unnested_of_isMark h
  rw [List.cons_append, List.append_assoc, List.singleton_append, splitOutside, if_pos rfl,
    if_neg opens, if_neg closes, if_neg (by simp [ne]), next, if_pos h,
    splitOutside_inside h inside]
  rfl

theorem Solid.split {separator : Char} {text : List Char} (h : Solid separator text) :
    splitOutside separator .outside 0 text = [text] := by
  have := h []
  rw [List.append_nil, splitOutside, prependFirst_cons, List.append_nil] at this
  exact this

/-- A separator behind solid text ends the first part. -/
theorem Solid.split_separator {separator : Char} {first : List Char} (h : Solid separator first)
    (plain : isPlain separator = true) (rest : List Char) :
    splitOutside separator .outside 0 (first ++ separator :: rest) =
      first :: splitOutside separator .outside 0 rest := by
  obtain ⟨opens, closes⟩ := unnested_of_isPlain plain
  rw [h, splitOutside, if_pos rfl, if_neg opens, if_neg closes, if_pos ⟨rfl, rfl⟩, prependFirst_cons,
    List.append_nil]

theorem split_join {separator : Char} (plain : isPlain separator = true) (first : List Char)
    (others : List (List Char)) (h : ∀ text ∈ first :: others, Solid separator text) :
    splitOutside separator .outside 0 (first ++ others.flatMap (separator :: ·)) =
      first :: others := by
  induction others generalizing first with
  | nil =>
      rw [List.flatMap_nil, List.append_nil]
      exact (h first List.mem_cons_self).split
  | cons second others ih =>
      rw [List.flatMap_cons, List.cons_append, (h first List.mem_cons_self).split_separator plain,
        ih second fun text mem => h text (List.mem_cons_of_mem _ mem)]

end Quote

/-! ## Names in quotes -/

namespace Subscript

open Quote

theorem unescape_plain {mark c : Char} (item rest : List Char) (h : c ≠ '\\') (ne : c ≠ mark) :
    unescape mark item (c :: rest) = (unescape mark item rest).map (c :: ·) := by
  rw [unescape.eq_def]
  split <;> simp_all

theorem unescape_escaped {e c : Char} (mark : Char) (item rest : List Char) (notCode : e ≠ 'u')
    (h : escaped? e = some c) :
    unescape mark item ('\\' :: e :: rest) = (unescape mark item rest).map (c :: ·) := by
  rw [unescape.eq_4 _ _ _ _ notCode, h]

theorem escaped?_of_control {e c : Char} (h : Text.control? e = some c) :
    e ≠ 'u' ∧ escaped? e = some c := by
  constructor
  · rintro rfl
    cases h
  · rw [escaped?, h]

theorem escaped?_itself {e : Char} (h : e = '\\' ∨ e = '\'' ∨ e = '"' ∨ e = '/') :
    e ≠ 'u' ∧ escaped? e = some e := by
  rcases h with rfl | rfl | rfl | rfl <;> exact ⟨by decide, rfl⟩

theorem unescape_codePoint {c : Char} (mark : Char) (item digits rest : List Char)
    (four : digits.length = 4) (h : Text.codePoint? digits = some c) :
    unescape mark item ('\\' :: 'u' :: (digits ++ rest)) =
      (unescape mark item rest).map (c :: ·) := by
  rw [unescape.eq_2, List.take_left' four, List.drop_left' four, h]

/-- A name written character by character is decoded if each character is. -/
theorem unescape_flatMap {mark : Char} {write : Char → List Char} (item : List Char)
    (each : ∀ c rest, unescape mark item (write c ++ rest) = (unescape mark item rest).map (c :: ·))
    (name : List Char) : unescape mark item (name.flatMap write) = .ok name := by
  induction name with
  | nil => rw [List.flatMap_nil, unescape]
  | cons c rest ih =>
      rw [List.flatMap_cons, each, ih]
      rfl

theorem unquote_eq (mark : Char) (body : List Char) :
    unquote mark (mark :: (body ++ [mark])) =
      (unescape mark (mark :: (body ++ [mark])) body).map String.ofList := by
  have inner : [mark].isSuffixOf? (body ++ [mark]) = some body :=
    List.isSuffixOf?_eq_some_iff_append_eq.mpr rfl
  rw [unquote, List.drop_one, List.tail_cons, inner]

theorem unquote_quoted {mark : Char} (body name : List Char)
    (h : unescape mark (mark :: (body ++ [mark])) body = .ok name) :
    unquote mark (mark :: (body ++ [mark])) = .ok (String.ofList name) := by
  rw [unquote_eq, h]
  rfl

end Subscript

namespace Label

open Quote

theorem inside_escapeName (name : List Char) : Inside '\'' (name.flatMap escapeName) := by
  refine inside_flatMap ?_ name
  intro c
  rw [escapeName]
  split
  · exact .escape .nil
  · rename_i plain
    exact .plain (fun eq => plain (.inr eq)) (fun eq => plain (.inl eq)) .nil

theorem unescape_escapeName (item name : List Char) :
    Subscript.unescape '\'' item (name.flatMap escapeName) = .ok name := by
  refine Subscript.unescape_flatMap item ?_ name
  intro c rest
  rw [escapeName]
  split
  · rename_i special
    obtain ⟨notCode, escaped⟩ := Subscript.escaped?_itself (special.imp_right .inl)
    exact Subscript.unescape_escaped _ _ _ notCode escaped
  · rename_i plain
    exact Subscript.unescape_plain _ _ (fun eq => plain (.inl eq)) fun eq => plain (.inr eq)

theorem toList_quoteName (name : String) :
    (quoteName name).toList = '\'' :: (name.toList.flatMap escapeName ++ ['\'']) := by
  rw [quoteName, String.toList_append, String.toList_append]
  show ['\''] ++ (String.ofList _).toList ++ ['\''] = _
  rw [String.toList_ofList, List.append_assoc]
  rfl

theorem key_quoteName (name : String) :
    Subscript.key (quoteName name).toList = .ok (.name name) := by
  rw [toList_quoteName, Subscript.key,
    Subscript.unquote_quoted _ _ (unescape_escapeName _ name.toList), String.ofList_toList]
  rfl

end Label

namespace Json

open Quote

/-- How a character is written inside a string: as itself, after a backslash, or as a code point. -/
inductive Escapes (c : Char) : List Char → Prop
  | plain : c ≠ '"' → c ≠ '\\' → Escapes c [c]
  | itself : c = '\\' ∨ c = '\'' ∨ c = '"' ∨ c = '/' → Escapes c ['\\', c]
  | control {e : Char} : Text.control? e = some c → Escapes c ['\\', e]
  | codePoint {digits : List Char} : digits.length = 4 → Inside '"' digits →
      Text.codePoint? digits = some c → Escapes c ('\\' :: 'u' :: digits)

theorem inside_digits {digits : List Char} (h : digits.all fun c => c != '"' && c != '\\') :
    Inside '"' digits := by
  induction digits with
  | nil => exact .nil
  | cons c rest ih =>
      rw [List.all_cons, Bool.and_eq_true, Bool.and_eq_true, bne_iff_ne, bne_iff_ne] at h
      obtain ⟨⟨quote, escape⟩, tail⟩ := h
      exact .plain quote escape (ih tail)

/-- The two lengths of hexadecimal numerals below the blank. -/
theorem hex_control : ∀ n < 0x20,
    let digits := (if n < 0x10 then ['0', '0', '0'] else ['0', '0']) ++ Text.hex n
    digits.length = 4 ∧ (digits.all fun c => c != '"' && c != '\\') ∧
      Text.codePoint? digits = some (Char.ofNat n) := by
  decide

theorem escapes_escape (c : Char) : Escapes c (escape c) := by
  simp only [escape]
  split
  · exact .itself (by decide)
  · exact .itself (by decide)
  · exact .control rfl
  · exact .control rfl
  · exact .control rfl
  · exact .control rfl
  · exact .control rfl
  · rename_i quote escape _ _ _ _ _
    by_cases low : c.toNat < 0x20
    · obtain ⟨four, inside, code⟩ := hex_control c.toNat low
      rw [Char.ofNat_toNat] at code
      by_cases lower : c.toNat < 0x10
      · rw [if_pos lower] at four inside code ⊢
        exact .codePoint four (inside_digits inside) code
      · rw [if_neg lower] at four inside code ⊢
        rw [if_pos low]
        exact .codePoint four (inside_digits inside) code
    · rw [if_neg (by omega), if_neg low]
      exact .plain quote escape

theorem inside_escape (name : List Char) : Inside '"' (name.flatMap escape) := by
  refine inside_flatMap ?_ name
  intro c
  have escapes := escapes_escape c
  generalize escape c = text at escapes ⊢
  cases escapes with
  | plain quote escape => exact .plain quote escape .nil
  | itself _ => exact .escape .nil
  | control _ => exact .escape .nil
  | codePoint _ inside _ => exact .escape inside

theorem unescape_escape (item name : List Char) :
    Subscript.unescape '"' item (name.flatMap escape) = .ok name := by
  refine Subscript.unescape_flatMap item ?_ name
  intro c rest
  have escapes := escapes_escape c
  generalize escape c = text at escapes ⊢
  cases escapes with
  | plain quote escape => exact Subscript.unescape_plain _ _ escape quote
  | itself special =>
      obtain ⟨notCode, escaped⟩ := Subscript.escaped?_itself special
      exact Subscript.unescape_escaped _ _ _ notCode escaped
  | control control =>
      obtain ⟨notCode, escaped⟩ := Subscript.escaped?_of_control control
      exact Subscript.unescape_escaped _ _ _ notCode escaped
  | codePoint four _ code => exact Subscript.unescape_codePoint _ _ _ _ four code

theorem toList_writeString (name : String) :
    (writeString name).toList = '"' :: (name.toList.flatMap escape ++ ['"']) := by
  rw [writeString, String.toList_append, String.toList_append]
  show ['"'] ++ (String.ofList _).toList ++ ['"'] = _
  rw [String.toList_ofList, List.append_assoc]
  rfl

theorem key_writeString (name : String) :
    Subscript.key (writeString name).toList = .ok (.name name) := by
  rw [toList_writeString, Subscript.key,
    Subscript.unquote_quoted _ _ (unescape_escape _ name.toList), String.ofList_toList]
  rfl

end Json

end TreePath
