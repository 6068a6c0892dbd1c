/-
# Embedding — scripts between the brackets of a path

The scan of a path and the grammar of scripts each decide for themselves where strings, parentheses and
brackets end.  They agree on every script, so a path holds the script whole.  What the path keeps of it is the
text without the blanks at its ends, which mean nothing.

`survives_embedding` says this of every text that is a script: in parentheses, and in parentheses after a
question mark, it is read and compiled as a script and as a filter with the same expression.

Three things are needed, each proved elsewhere for all scripts or here in a few lines:

1. the text of a script is balanced (`Script/Nesting`), so the bracket of the path ends where it should;
2. a balanced text in parentheses is classified as a script or a filter (`classify_script`,
   `classify_filter`);
3. trimming takes off blanks only, and the lexemes stay (`Spaced.trim`).
-/
import TreePath.Proofs.Path.Partners
import TreePath.Proofs.Path.Scanning
import TreePath.Proofs.Script.Nesting
import TreePath.Script.Eval

namespace TreePath

namespace Script

/-! ## Blanks at the ends -/

theorem isBlank_of_isGap {c : Char} (gap : isGap c = true) : Text.isBlank c = true := by
  rcases isGap_iff.mp gap with rfl | rfl | rfl | rfl <;> decide

theorem Spaced.trimLeft {lexemes : List Lexeme} {text : List Char} (spaced : Spaced lexemes text) :
    Spaced lexemes (text.dropWhile Text.isBlank) := by
  induction spaced with
  | nil => exact .nil
  | gap gap _ ih =>
      rw [List.dropWhile_cons_of_pos (isBlank_of_isGap gap)]
      exact ih
  | @lexeme l _ text spaced ih =>
      have same : (l.text ++ text).dropWhile Text.isBlank = l.text ++ text := by
        refine Text.dropWhile_isBlank ?_
        intro c head
        rw [List.head?_append_of_ne_nil _ l.spells.ne_nil] at head
        exact l.spells.trimmed.1 c head
      rw [same]
      exact .lexeme l spaced

theorem Spaced.trimRight {lexemes : List Lexeme} {text : List Char}
    (spaced : Spaced lexemes text) : Spaced lexemes (Text.trimRight text) := by
  induction spaced with
  | nil => exact .nil
  | @gap c lexemes text gap _ ih =>
      rw [← List.singleton_append, Text.trimRight_append]
      split
      · rename_i empty
        have blank : Text.trimRight [c] = [] := by
          rw [Text.trimRight, List.reverse_singleton,
            List.dropWhile_cons_of_pos (isBlank_of_isGap gap)]
          rfl
        rw [empty] at ih
        rw [blank]
        exact ih
      · exact .gap gap ih
  | @lexeme l lexemes text _ ih =>
      have visible : Text.trimRight l.text = l.text := by
        have last := l.spells.trimmed.2
        rw [← List.head?_reverse] at last
        rw [Text.trimRight, Text.dropWhile_isBlank last, List.reverse_reverse]
      rw [Text.trimRight_append, visible]
      split
      · rename_i empty
        rw [empty] at ih
        have whole := Spaced.lexeme l ih
        rwa [List.append_nil] at whole
      · exact .lexeme l ih

theorem Spaced.trim {lexemes : List Lexeme} {text : List Char} (spaced : Spaced lexemes text) :
    Spaced lexemes (Text.trim text) :=
  spaced.trimLeft.trimRight

end Script

/-! ## Scripts in brackets -/

namespace Subscript

open Quote

theorem classify_script {body : List Char} (balanced : Balanced body) :
    classify (Text.trim ('(' :: (body ++ [')']))) =
      .ok (.script (String.ofList (Text.trim body))) := by
  have trimmed : Text.Trimmed ('(' :: (body ++ [')'])) :=
    Text.trimmed_cons_concat (by decide) (by decide) body
  rw [Text.trim_eq_self trimmed, classify, if_neg (by simp), if_neg (by simp), balanced.enclosed?]

theorem classify_filter {body : List Char} (balanced : Balanced body) :
    classify (Text.trim ('?' :: '(' :: (body ++ [')']))) =
      .ok (.filter (String.ofList (Text.trim body))) := by
  have trimmed : Text.Trimmed ('?' :: '(' :: (body ++ [')'])) :=
    Text.trimmed_cons_concat (by decide) (by decide) ('(' :: body)
  have notScript : enclosed? ('?' :: '(' :: (body ++ [')'])) = none := rfl
  have filtered : (['?'].isPrefixOf? ('?' :: '(' :: (body ++ [')']))).bind enclosed? = some body :=
    balanced.enclosed?
  rw [Text.trim_eq_self trimmed, classify, if_neg (by simp), if_neg (by simp), notScript]
  dsimp only
  rw [filtered]

end Subscript

namespace Step

open Scan

theorem parse_bracket {content : List Char} (balanced : Quote.Balanced content) {step : Step}
    (classified : Subscript.classify (Text.trim content) = .ok step) :
    parse (String.ofList ('$' :: '[' :: (content ++ [']']))) = .ok [.root, step] := by
  have root : Settled [.root] ⟨1, .root, [.root]⟩ := .root
  obtain ⟨s, scans, settled⟩ := (Opens.settled root).bracket balanced classified
  exact parse_eq_ok_iff.mpr ⟨rfl, steps_eq_ok_iff.mpr ⟨s, .cons rfl scans, settled.finish⟩⟩

end Step

namespace Script

theorem compile_eq_ok_iff {source : String} {script : Script} :
    compile source = .ok script ↔ script.source = source ∧ parse source = .ok script.expr := by
  unfold compile
  cases parse source with
  | error _ =>
      constructor
      · rintro ⟨⟩
      · rintro ⟨_, ⟨⟩⟩
  | ok expr =>
      constructor
      · rintro ⟨⟩
        exact ⟨rfl, rfl⟩
      · rintro ⟨rfl, ⟨⟩⟩
        rfl

theorem bracketed_text (opening source : String) :
    "$[" ++ opening ++ source ++ ")]" =
      String.ofList ('$' :: '[' :: (opening.toList ++ (source.toList ++ [')']) ++ [']'])) := by
  rw [← String.toList_inj, String.toList_ofList, String.toList_append, String.toList_append,
    String.toList_append]
  show ['$', '['] ++ opening.toList ++ source.toList ++ [')', ']'] = _
  simp only [List.append_assoc, List.cons_append, List.nil_append]

/-- A script is read out of a path as the text without the blanks at its ends, which denotes the
same expression. -/
theorem survives_embedding {source : String} {script : Script}
    (compiled : compile source = .ok script) :
    let body := String.ofList (Text.trim source.toList)
    Step.parse ("$[(" ++ source ++ ")]") = .ok [.root, .script body] ∧
      Step.parse ("$[?(" ++ source ++ ")]") = .ok [.root, .filter body] ∧
      compile body = .ok ⟨body, script.expr⟩ := by
  intro body
  obtain ⟨-, parsed⟩ := compile_eq_ok_iff.mp compiled
  obtain ⟨lexemes, raw, spaced, denotes, decoded⟩ := parse_eq_ok_iff.mp parsed
  have balanced := spaced.balanced denotes
  have bracketed := Quote.balanced_parenthesized balanced
  refine ⟨?_, ?_, ?_⟩
  · rw [show "$[(" = "$[" ++ "(" from rfl, bracketed_text]
    exact Step.parse_bracket bracketed (Subscript.classify_script balanced)
  · rw [show "$[?(" = "$[" ++ "?(" from rfl, bracketed_text]
    exact Step.parse_bracket (.plain rfl bracketed) (Subscript.classify_filter balanced)
  · refine compile_eq_ok_iff.mpr ⟨rfl, parse_eq_ok_iff.mpr ⟨lexemes, raw, ?_, denotes, decoded⟩⟩
    rw [String.toList_ofList]
    exact spaced.trim

/-- Strings may hold brackets and parentheses, the other mark, and their own mark after a
backslash. -/
theorem survives_embedding_strings :
    let body := "@['a]\\')('] == \")\\\"]\""
    Step.parse ("$[(" ++ (" " ++ body ++ "\t") ++ ")]") = .ok [.root, .script body] ∧
      Step.parse ("$[?(" ++ (" " ++ body ++ "\t") ++ ")]") = .ok [.root, .filter body] ∧
      compile body = .ok ⟨body,
        .binary .eq (.index .value (.literal (.string "a]')("))) (.literal (.string ")\"]"))⟩ := by
  intro body
  have parsed : parse (" " ++ body ++ "\t") =
      .ok (.binary .eq (.index .value (.literal (.string "a]')("))) (.literal (.string ")\"]"))) := by
    decide +kernel
  have compiled : compile (" " ++ body ++ "\t") = .ok ⟨" " ++ body ++ "\t", _⟩ :=
    compile_eq_ok_iff.mpr ⟨rfl, parsed⟩
  have trimmed : String.ofList (Text.trim (" " ++ body ++ "\t").toList) = body := by
    decide +kernel
  have embedded := survives_embedding compiled
  rwa [trimmed] at embedded

end Script

end TreePath
