/-
# Literals — a quoted text as a name and as a script

Between brackets a quoted text is a name; between parentheses in brackets it is a script that is a string.
The two are cut off and decoded by different readers.  Both know the same letters after a backslash, and
differ in what they refuse: the reader of strings takes other characters after a backslash as they are.

Where the text is accepted as a name, the string is that name (`unescape_of_reads`).  Since a text selects
the key that it is written as, both lead to the same child of every value: `findSame_of_quoted`.

The proof goes through the grammar of names and not through the two readers side by side: what denotes a
name is shown to denote the same string.
-/
import TreePath.Proofs.Path.QuotedNames
import TreePath.Proofs.Program.Lookup

namespace TreePath

namespace Script

open Subscript (UpToFour Escape)

theorem control?_of_escape {e c : Char} (escape : Escape e c) : (Text.control? e).getD e = c := by
  cases escape <;> rfl

theorem unescape_of_reads {mark : Char} {content name : List Char}
    (reads : Subscript.Reads mark UpToFour content name) : unescape content = .ok name := by
  induction reads with
  | nil => rw [unescape]
  | plain _ ne' _ ih =>
      rw [unescape.eq_5 _ _ (fun _ eq => absurd eq ne') (fun eq => absurd eq ne')
        fun _ _ eq => absurd eq ne', ih]
      rfl
  | escape escape _ ih =>
      rw [unescape.eq_4 _ _ escape.ne_codePoint, ih, control?_of_escape escape]
      rfl
  | code code _ ih =>
      obtain ⟨taken, left⟩ := code.cut
      rw [unescape.eq_2, taken, left, Text.codePoint?_eq_some_iff.mpr code.2, ih]
      rfl

theorem compile_quoted {mark : Char} (h : Quote.isMark mark = true) {content name : List Char}
    (reads : Subscript.Reads mark UpToFour content name) :
    compile (String.ofList (mark :: (content ++ [mark]))) =
      .ok ⟨String.ofList (mark :: (content ++ [mark])), .literal (.string (String.ofList name))⟩ := by
  let lexeme : Lexeme := ⟨_, _, .string h (reads.inside h)⟩
  refine compile_eq_ok_iff.mpr ⟨rfl, parse_eq_ok_iff.mpr ⟨[lexeme], _, ?_, rfl, ?_⟩⟩
  · have spaced := Spaced.lexeme lexeme .nil
    rw [List.append_nil] at spaced
    rw [String.toList_ofList]
    exact spaced
  · show (unescape (String.ofList content).toList).map _ = _
    rw [String.toList_ofList, unescape_of_reads reads]
    rfl

end Script

namespace Program

open Quote (isMark)
open Subscript (UpToFour)

variable {mark : Char} {content : List Char} {n : String}

/-- A name in brackets and the script that is the same text in parentheses find the same child. -/
theorem findSame_of_quoted (quote : isMark mark = true)
    (accepted : Step.parse ("$[" ++ String.ofList (mark :: (content ++ [mark])) ++ "]") =
      .ok [.root, .property (.name n)]) (options : Options) :
    let literal := String.ofList (mark :: (content ++ [mark]))
    ∃ script named scripted,
      Script.compile literal = .ok script ∧
      (∀ value path, script.evaluate value path = .ok (.text n)) ∧
      compile ("$[" ++ literal ++ "]") options = .ok named ∧
      compile ("$[(" ++ literal ++ ")]") options = .ok scripted ∧
      ∀ document context, FindSame document context named scripted (.name n) (.ofBare n) := by
  intro literal
  have text : "$[" ++ literal ++ "]" = Step.quotedPath mark content := by
    rw [← String.toList_inj]
    simp [literal, Step.quotedPath, Scan.quotedText]
  have parsed := accepted
  rw [text] at parsed
  obtain ⟨name, reads, rfl⟩ := (Step.parse_quotedPath_eq_ok_iff quote content n).mp parsed
  have compiled := Script.compile_quoted quote reads
  have script_parsed := Step.parse_parenthesized
    (Quote.balanced_quoted quote (reads.inside quote)) (Quote.trimmed_quoted quote content)
  have lowered : Op.compile options (.script literal) =
      .ok (.script ⟨literal, .literal (.string (String.ofList name))⟩) :=
    map_eq_ok_iff.mpr ⟨_, compiled, rfl⟩
  refine ⟨_, _, _, compiled, fun _ _ => rfl, compile_single accepted (by simp) rfl,
    compile_single script_parsed (by simp) lowered, ?_⟩
  intro document context
  refine findSame_of_located (located_property _ _ _ _) (located_script ?_ _ _ _) trivial
    (Key.fits_ofBare _) ?_
  · intro path
    rfl
  · exact (Key.text_canonical (.name _)).symm

/-- A numeral that is written as a code finds an item of an array, as a name and as a script. -/
theorem findSame_of_quoted_numeral :
    let document := Json.arr [.null, .bool true]
    Step.parse "$['\\u0031']" = .ok [.root, .property (.name "1")] ∧
      ∃ named scripted, compile "$['\\u0031']" .default = .ok named ∧
        compile "$[('\\u0031')]" .default = .ok scripted ∧
        named.records document none = .ok [⟨[.root, .key (.name "1")], .bool true⟩] ∧
        scripted.records document none = .ok [⟨[.root, .key (.index 1)], .bool true⟩] := by
  intro document
  have quote : isMark '\'' = true := by decide
  have accepted : Step.parse "$['\\u0031']" = .ok [.root, .property (.name "1")] := by
    have code : UpToFour ['0', '0', '3', '1'] [] '1' :=
      ⟨.inl rfl, ['0', '0', '3', '1'], .inl rfl, by decide⟩
    refine (Step.parse_quotedPath_eq_ok_iff quote ['\\', 'u', '0', '0', '3', '1'] "1").mpr
      ⟨['1'], ?_, rfl⟩
    exact .code code .nil
  obtain ⟨_, named, scripted, -, -, compiled, compiled', same⟩ :=
    @findSame_of_quoted '\'' ['\\', 'u', '0', '0', '3', '1'] "1" quote accepted .default
  have named_eq : named = assemble "$['\\u0031']" [.root, .property (.name "1")] .default
      [.property (.name "1")] :=
    Except.ok.inj (compiled.symm.trans (compile_single accepted (by simp) rfl))
  have records : named.records document none = .ok [⟨[.root, .key (.name "1")], .bool true⟩] := by
    rw [named_eq, records_eq_recordsByHistory]
    rfl
  refine ⟨accepted, named, scripted, compiled, compiled', records, ?_⟩
  rcases same document none with ⟨none, -⟩ | ⟨child, _, found, found', -⟩
  · cases records.symm.trans none
  · cases records.symm.trans found
    exact found'

end Program

end TreePath
