/-
# Lines — a document written compactly is one line

A number is written without blanks.  A string escapes line feeds, as it does all control characters, and what
is written around strings and numbers has none.  So the compact text of every value is one line.

The text of every document ends in a quote, a bracket, a letter or a digit, so nothing is lost where blanks
at its end are trimmed.  `OneLine` has both facts, and `oneLine_write` proves them by induction on the value,
with `oneLine_enclosed` for the two kinds of containers.

Numbers are stricter: their texts are `Visible`, without any blank.  That is shown of each of the forms that
a layout has, and does not depend on which digits the number has.
-/
import TreePath.Proofs.Path.Spelling

namespace TreePath

/-- A text without line feeds, which does not end in a blank. -/
structure OneLine (text : List Char) : Prop where
  noBreak : '\n' ∉ text
  ends : EndsPlain text

theorem OneLine.append {a b : List Char} (noBreak : '\n' ∉ a) (h : OneLine b) : OneLine (a ++ b) := by
  refine ⟨?_, h.ends.append a⟩
  intro mem
  rcases List.mem_append.mp mem with mem | mem
  · exact noBreak mem
  · exact h.noBreak mem

theorem OneLine.concat {a : List Char} (noBreak : '\n' ∉ a) {c : Char}
    (visible : Text.isBlank c = false) : OneLine (a ++ [c]) := by
  refine .append noBreak ⟨?_, c, rfl, visible⟩
  intro mem
  cases List.mem_singleton.mp mem
  cases visible

def Visible (text : List Char) : Prop :=
  ∀ c ∈ text, Text.isBlank c = false

theorem visible_of_all {text : List Char} (all : text.all (fun c => !Text.isBlank c) = true) :
    Visible text := by
  intro c mem
  simpa using List.all_eq_true.mp all c mem

theorem Visible.append {a b : List Char} (ha : Visible a) (hb : Visible b) : Visible (a ++ b) := by
  intro c mem
  rcases List.mem_append.mp mem with mem | mem
  · exact ha c mem
  · exact hb c mem

theorem Visible.cons {c : Char} {text : List Char} (first : Text.isBlank c = false)
    (others : Visible text) : Visible (c :: text) := by
  intro d mem
  rcases List.mem_cons.mp mem with rfl | mem
  · exact first
  · exact others d mem

theorem Visible.oneLine {text : List Char} (visible : Visible text) (nonempty : text ≠ []) :
    OneLine text := by
  constructor
  · intro mem
    cases visible _ mem
  · exact ⟨text.getLast nonempty, List.getLast?_eq_some_getLast nonempty,
      visible _ (List.getLast_mem nonempty)⟩

/-! ## Numbers -/

theorem Text.visible_toDigits (n : Nat) : Visible (Nat.toDigits 10 n) :=
  fun _ mem => isBlank_of_isDigit (isDigit_of_mem_toDigits mem)

theorem Text.oneLine_signedDecimal (n : Int) : OneLine (signedDecimal n).toList := by
  have digits := visible_toDigits n.natAbs
  have nonempty : Nat.toDigits 10 n.natAbs ≠ [] := Nat.toDigits_ne_nil
  rw [signedDecimal]
  split
  · rw [String.toList_append, toList_decimal]
    exact (Visible.cons (by decide) digits).oneLine (List.cons_ne_nil '-' _)
  · rw [toList_decimal]
    exact digits.oneLine nonempty

namespace Layout

theorem visible_zeros (count : Nat) : Visible (List.replicate count '0') := by
  intro c mem
  rw [List.eq_of_mem_replicate mem]
  decide

theorem oneLine_writeOut (keepsFraction : Bool) {digits : List Char} (visible : Visible digits)
    (nonempty : digits ≠ []) (place : Int) : OneLine (writeOut keepsFraction digits place) := by
  have whole : Visible (digits.take place.toNat) := fun c mem => visible c (List.mem_of_mem_take mem)
  have fraction : Visible (digits.drop place.toNat) := fun c mem => visible c (List.mem_of_mem_drop mem)
  rw [writeOut]
  split
  · exact (Visible.cons (by decide) (.cons (by decide) ((visible_zeros _).append visible))).oneLine
      (List.cons_ne_nil _ _)
  · rename_i positive
    have taken : digits.take place.toNat ≠ [] := by
      rw [Ne, List.take_eq_nil_iff]
      rintro (none | none)
      · omega
      · exact nonempty none
    dsimp only
    split
    · refine ((whole.append (visible_zeros _)).append ?_).oneLine (by simp [taken])
      split
      · exact .cons (by decide) (.cons (by decide) (by simp [Visible]))
      · simp [Visible]
    · exact (whole.append (.cons (by decide) fraction)).oneLine (by simp)

theorem oneLine_writeScientific {digits : List Char} (visible : Visible digits) (place : Int) :
    OneLine (writeScientific digits place) := by
  have sign : Text.isBlank (if place - 1 < 0 then '-' else '+') = false := by
    split <;> decide
  unfold writeScientific
  refine (Visible.append ?_ (.cons (by decide) (.cons sign (Text.visible_toDigits _)))).oneLine (by simp)
  split
  · rename_i first second rest
    have others : Visible (second :: rest) := fun c mem => visible c (List.mem_cons_of_mem _ mem)
    exact .cons (visible first List.mem_cons_self) (.cons (by decide) others)
  · exact visible

theorem oneLine_write (layout : Layout) (negative : Bool) (rank : Nat) :
    OneLine (layout.write negative rank).toList := by
  have digits := Text.visible_toDigits (Binary64.shortest layout.tie rank).digits
  have nonempty : Nat.toDigits 10 (Binary64.shortest layout.tie rank).digits ≠ [] :=
    Nat.toDigits_ne_nil
  rw [write, String.toList_ofList]
  generalize Nat.toDigits 10 (Binary64.shortest layout.tie rank).digits = text at digits nonempty
  have magnitude : ∀ place, OneLine
      (if layout.positional place then writeOut layout.keepsFraction text place
        else writeScientific text place) := by
    intro place
    split
    · exact oneLine_writeOut layout.keepsFraction digits nonempty place
    · exact oneLine_writeScientific digits place
  split
  · exact .append (a := ['-']) (by decide) (magnitude _)
  · exact magnitude _

end Layout

theorem Number.oneLine_write (n : Number) : OneLine n.write.toList := by
  have null : OneLine "null".toList := (visible_of_all (by decide)).oneLine (by decide)
  match n with
  | .integer value => exact Text.oneLine_signedDecimal value
  | .float (.finite negative rank) => exact layout.oneLine_write negative rank
  | .float (.infinite _) => exact null
  | .float .nan => exact null

/-! ## Documents -/

namespace Json

theorem break_notMem_hex : ∀ n < 0x20, '\n' ∉ Text.hex n := by
  decide

theorem break_notMem_escape (c : Char) : '\n' ∉ escape c := by
  simp only [escape]
  split
  · decide
  · decide
  · decide
  · decide
  · decide
  · decide
  · decide
  · rename_i noBreak _ _
    by_cases low : c.toNat < 0x20
    · have digits := break_notMem_hex c.toNat low
      by_cases lower : c.toNat < 0x10
      · rw [if_pos lower]
        simp [digits]
      · rw [if_neg lower, if_pos low]
        simp [digits]
    · rw [if_neg (by omega), if_neg low]
      intro mem
      exact noBreak (List.mem_singleton.mp mem).symm

theorem oneLine_writeString (text : String) : OneLine (writeString text).toList := by
  rw [toList_writeString, ← List.cons_append]
  refine .concat ?_ (by decide)
  intro mem
  rcases List.mem_cons.mp mem with mem | mem
  · cases mem
  · obtain ⟨c, _, mem⟩ := List.mem_flatMap.mp mem
    exact break_notMem_escape c mem

theorem break_notMem_intercalate {texts : List String} (each : ∀ text ∈ texts, '\n' ∉ text.toList) :
    '\n' ∉ (",".intercalate texts).toList := by
  rw [String.toList_intercalate]
  induction texts with
  | nil => exact List.not_mem_nil
  | cons text rest ih =>
      have others := ih fun text mem => each text (List.mem_cons_of_mem _ mem)
      have first := each text List.mem_cons_self
      cases rest with
      | nil => simpa using first
      | cons next rest =>
          rw [List.map_cons, List.map_cons, List.intercalate_cons_cons]
          intro mem
          rcases List.mem_append.mp mem with mem | mem
          · rcases List.mem_append.mp mem with mem | mem
            · exact first mem
            · revert mem
              decide
          · exact others mem

/-- What is written between two brackets is one line if its parts hold no line feeds. -/
theorem oneLine_enclosed {left right : String} (left_noBreak : '\n' ∉ left.toList)
    (right_line : OneLine right.toList) {texts : List String}
    (each : ∀ text ∈ texts, '\n' ∉ text.toList) :
    OneLine (left ++ ",".intercalate texts ++ right).toList := by
  rw [String.toList_append, String.toList_append]
  refine .append ?_ right_line
  intro mem
  rcases List.mem_append.mp mem with mem | mem
  · exact left_noBreak mem
  · exact break_notMem_intercalate each mem

mutual

theorem oneLine_write : (value : Json) → OneLine value.write.toList
  | .null => Number.oneLine_write (.float .nan)
  | .bool true => (visible_of_all (by decide)).oneLine (by decide)
  | .bool false => (visible_of_all (by decide)).oneLine (by decide)
  | .num n => n.oneLine_write
  | .str text => oneLine_writeString text
  | .arr items => by
    have right : OneLine "]".toList := .concat (a := []) (by decide) (by decide)
    rw [write]
    exact oneLine_enclosed (by decide) right (break_notMem_writeItems items)
  | .obj members => by
    have right : OneLine "\x7d".toList := .concat (a := []) (by decide) (by decide)
    rw [write]
    exact oneLine_enclosed (by decide) right (break_notMem_writeMembers members)

theorem break_notMem_writeItems : (items : List Json) →
    ∀ text ∈ writeItems items, '\n' ∉ text.toList
  | [] => by
    intro text mem
    cases mem
  | item :: rest => by
    intro text mem
    rcases List.mem_cons.mp mem with rfl | mem
    · exact item.oneLine_write.noBreak
    · exact break_notMem_writeItems rest text mem

theorem break_notMem_writeMembers : (members : List (String × Json)) →
    ∀ text ∈ writeMembers members, '\n' ∉ text.toList
  | [] => by
    intro text mem
    cases mem
  | (name, value) :: rest => by
    intro text mem
    rcases List.mem_cons.mp mem with rfl | mem
    · rw [String.toList_append, String.toList_append]
      have noBreak : '\n' ∉ (writeString name).toList ++ ":".toList := by
        intro mem
        rcases List.mem_append.mp mem with mem | mem
        · exact (oneLine_writeString name).noBreak mem
        · revert mem
          decide
      exact (OneLine.append noBreak value.oneLine_write).noBreak
    · exact break_notMem_writeMembers rest text mem

end

end Json

end TreePath
