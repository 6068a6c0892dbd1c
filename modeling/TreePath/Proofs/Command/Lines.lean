/-
# Lines — what a query prints, line by line

In text each match is written with a line end: its value compactly, or its path.  One might expect a line for
each match.

* A compact value is one line, whatever it holds (`Json/Lines`).
* A path is one line unless a name among its keys has a line feed, for names are quoted in a path but their
  line feeds are not escaped.

So there is one line for each entry if values are printed, and if paths are printed exactly when the matches
are `Unbroken`.  `lines_of_query` says both, for every query that prints text, and `query_breaks_line` is a
query with two paths on three lines.

The program trims its text at the end before it is printed.  Neither a value nor a path ends in a blank
(`endsPlain_entries`), so what is trimmed is the last line end and nothing more.

The names that are called in a path are plain as well: the functions of a command are the standard ones
(`CompileSettings.break_notMem_of_find?`).
-/
import TreePath.Command.Run
import TreePath.Proofs.Json.Lines
import TreePath.Proofs.Path.Calls
import TreePath.Proofs.Program.Branches
import TreePath.Proofs.Program.Outputs

namespace TreePath

/-! ## Paths -/

namespace Label

theorem break_mem_quoteName {name : String} :
    '\n' ∈ (quoteName name).toList ↔ '\n' ∈ name.toList := by
  have escaped (c : Char) : '\n' ∈ escapeName c ↔ '\n' = c := by
    rw [escapeName]
    split <;> simp
  simp [toList_quoteName, List.mem_flatMap, escaped]

theorem break_mem_fragment {k : Key} :
    '\n' ∈ (Label.key k).fragment.toList ↔ '\n' ∈ k.text.toList := by
  rw [fragment]
  split <;> simp [break_mem_quoteName]

theorem endsPlain_fragment {label : Label}
    (called : ∀ text, label = .call text → ∃ name, text = name ++ "()") :
    EndsPlain label.fragment.toList := by
  cases label with
  | root => exact ⟨'$', rfl, by decide⟩
  | key k =>
      have bracket : EndsPlain "]".toList := ⟨']', rfl, by decide⟩
      rw [fragment]
      split
      · rw [String.toList_append]
        exact bracket.append _
      · rw [String.toList_append]
        exact bracket.append _
  | call text =>
      obtain ⟨name, rfl⟩ := called text rfl
      have parentheses : EndsPlain "()".toList := ⟨')', rfl, by decide⟩
      rw [fragment, String.toList_append, String.toList_append]
      exact (parentheses.append _).append _

theorem endsPlain_render {labels : List Label} (nonempty : labels ≠ [])
    (called : ∀ text, .call text ∈ labels → ∃ name, text = name ++ "()") :
    EndsPlain (render labels).toList := by
  have last : EndsPlain (labels.getLast nonempty).fragment.toList := by
    refine endsPlain_fragment fun text eq => called text ?_
    rw [← eq]
    exact List.getLast_mem nonempty
  rw [toList_render, ← List.dropLast_concat_getLast nonempty, List.flatMap_append,
    List.flatMap_singleton]
  exact last.append _

end Label

/-- No name among the keys of a match has a line feed. -/
def Match.Unbroken (m : Match) : Prop :=
  ∀ k, .key k ∈ m.labels → '\n' ∉ k.text.toList

theorem Match.unbroken_iff {m : Match}
    (called : ∀ text, .call text ∈ m.labels → ∃ name : String, '\n' ∉ name.toList ∧ text = name ++ "()") :
    m.Unbroken ↔ '\n' ∉ m.path.toList := by
  rw [path, Label.toList_render]
  constructor
  · intro unbroken mem
    obtain ⟨label, label_mem, mem⟩ := List.mem_flatMap.mp mem
    cases label with
    | root =>
        revert mem
        decide
    | key k => exact unbroken k label_mem (Label.break_mem_fragment.mp mem)
    | call text =>
        obtain ⟨name, plain, rfl⟩ := called text label_mem
        simp [Label.fragment, plain] at mem
  · intro noBreak k mem broken
    exact noBreak (List.mem_flatMap.mpr ⟨_, mem, Label.break_mem_fragment.mpr broken⟩)

/-! ## Texts and their lines -/

namespace Command

/-- The lines of a text: none if it is empty, else what stands between its line feeds. -/
def lines (text : String) : List String :=
  if text = "" then [] else (text.toList.splitOn '\n').map String.ofList

theorem lines_of_ne {text : String} (nonempty : text ≠ "") :
    lines text = (text.toList.splitOn '\n').map String.ofList :=
  if_neg nonempty

theorem length_splitOn (text : List Char) :
    (text.splitOn '\n').length = text.count '\n' + 1 := by
  induction text with
  | nil => rfl
  | cons c rest ih =>
      rw [List.splitOn_cons_eq_if_modifyHead]
      by_cases same : c = '\n'
      · subst same
        rw [if_pos (beq_self_eq_true _), List.length_cons, ih, List.count_cons_self]
      · rw [if_neg (by simpa using same), List.length_modifyHead, ih, List.count_cons_of_ne same]

theorem length_lines {text : String} (nonempty : text ≠ "") :
    (lines text).length = text.toList.count '\n' + 1 := by
  rw [lines_of_ne nonempty, List.length_map, length_splitOn]

theorem lines_singleton {text : String} (nonempty : text ≠ "") (noBreak : '\n' ∉ text.toList) :
    lines text = [text] := by
  rw [lines_of_ne nonempty, List.splitOn_eq_singleton noBreak, List.map_singleton,
    String.ofList_toList]

theorem ne_of_endsPlain {text : String} (ends : EndsPlain text.toList) : text ≠ "" := by
  rintro rfl
  obtain ⟨_, ⟨⟩, _⟩ := ends

theorem lines_append {first rest : String} (first_ne : first ≠ "") (rest_ne : rest ≠ "") :
    lines (first ++ "\n" ++ rest) = lines first ++ lines rest := by
  have nonempty : first ++ "\n" ++ rest ≠ "" := by simp [rest_ne]
  rw [lines_of_ne nonempty, lines_of_ne first_ne, lines_of_ne rest_ne, ← List.map_append,
    ← List.splitOn_append_cons_self]
  simp

theorem unlines_cons (text : String) (rest : List String) :
    unlines (text :: rest) = text ++ "\n" ++ unlines rest := by
  rw [unlines, List.map_cons, String.join_cons]
  rfl

theorem trimRight_of_endsPlain {text : List Char} (ends : EndsPlain text) :
    Text.trimRight text = text := by
  obtain ⟨c, last, visible⟩ := ends
  rw [Text.trimRight_eq, List.rdropWhile_eq_self_iff]
  intro nonempty
  rw [List.getLast?_eq_some_getLast nonempty] at last
  cases last
  rw [visible]
  exact Bool.false_ne_true

/-- Only the last line end is trimmed of texts that do not end in blanks, each with a line end. -/
theorem trimEnd_unlines (texts : List String) {last : String} (ends : EndsPlain last.toList) :
    trimEnd (unlines (texts ++ [last])) = unlines texts ++ last := by
  have text : (unlines (texts ++ [last])).toList = (unlines texts ++ last).toList ++ ['\n'] := by
    simp [unlines]
  have kept : EndsPlain (unlines texts ++ last).toList := by
    rw [String.toList_append]
    exact ends.append _
  rw [trimEnd, text, Text.trimRight_eq, List.rdropWhile_concat_pos _ _ _ (by decide),
    ← Text.trimRight_eq, trimRight_of_endsPlain kept, String.ofList_toList]

theorem lines_unlines_append {texts : List String} (nonempty : ∀ text ∈ texts, text ≠ "")
    {last : String} (last_ne : last ≠ "") :
    lines (unlines texts ++ last) = texts.flatMap lines ++ lines last := by
  induction texts with
  | nil =>
      have text : unlines [] ++ last = last := String.empty_append
      rw [text]
      rfl
  | cons text rest ih =>
      have others := ih fun text mem => nonempty text (List.mem_cons_of_mem _ mem)
      have more : unlines rest ++ last ≠ "" := by simp [last_ne]
      rw [unlines_cons, String.append_assoc, lines_append (nonempty text List.mem_cons_self) more,
        others, List.flatMap_cons, List.append_assoc]

/-- The lines of texts that do not end in blanks are kept by what is trimmed. -/
theorem lines_trimEnd_unlines {texts : List String} (ends : ∀ text ∈ texts, EndsPlain text.toList) :
    lines (trimEnd (unlines texts)) = texts.flatMap lines := by
  rcases List.eq_nil_or_concat texts with rfl | ⟨others, last, rfl⟩
  · rfl
  · rw [List.concat_eq_append] at ends ⊢
    have last_ends := ends last (List.mem_append_right _ List.mem_cons_self)
    have nonempty : ∀ text ∈ others, text ≠ "" :=
      fun text mem => ne_of_endsPlain (ends text (List.mem_append_left _ mem))
    rw [trimEnd_unlines others last_ends, lines_unlines_append nonempty (ne_of_endsPlain last_ends),
      List.flatMap_append, List.flatMap_singleton]

theorem flatMap_lines {texts : List String} (nonempty : ∀ text ∈ texts, text ≠ "")
    (noBreak : ∀ text ∈ texts, '\n' ∉ text.toList) : texts.flatMap lines = texts := by
  have single : texts.flatMap lines = texts.flatMap fun text => [text] :=
    List.flatMap_congr fun text mem => lines_singleton (nonempty text mem) (noBreak text mem)
  rw [single, List.flatMap_singleton']

theorem length_le_flatMap_lines {texts : List String} (nonempty : ∀ text ∈ texts, text ≠ "") :
    texts.length ≤ (texts.flatMap lines).length := by
  induction texts with
  | nil => exact Nat.le_refl 0
  | cons text rest ih =>
      have others := ih fun text mem => nonempty text (List.mem_cons_of_mem _ mem)
      have first := length_lines (nonempty text List.mem_cons_self)
      rw [List.flatMap_cons, List.length_append, List.length_cons]
      omega

/-- As many lines as texts are one line for each. -/
theorem break_notMem_of_length {texts : List String} (nonempty : ∀ text ∈ texts, text ≠ "")
    (length : (texts.flatMap lines).length = texts.length) :
    ∀ text ∈ texts, '\n' ∉ text.toList := by
  induction texts with
  | nil => exact fun _ mem => nomatch mem
  | cons text rest ih =>
      have rest_ne : ∀ text ∈ rest, text ≠ "" :=
        fun text mem => nonempty text (List.mem_cons_of_mem _ mem)
      have first := length_lines (nonempty text List.mem_cons_self)
      have others := length_le_flatMap_lines rest_ne
      rw [List.flatMap_cons, List.length_append, List.length_cons] at length
      intro text' mem
      rcases List.mem_cons.mp mem with rfl | mem
      · exact List.count_eq_zero.mp (by omega)
      · exact ih rest_ne (by omega) text' mem

theorem length_flatMap_lines_eq_iff {texts : List String} (nonempty : ∀ text ∈ texts, text ≠ "") :
    (texts.flatMap lines).length = texts.length ↔ ∀ text ∈ texts, '\n' ∉ text.toList := by
  constructor
  · exact break_notMem_of_length nonempty
  · intro noBreak
    rw [flatMap_lines nonempty noBreak]

theorem flatMap_lines_eq_iff {texts : List String} (nonempty : ∀ text ∈ texts, text ≠ "") :
    texts.flatMap lines = texts ↔ ∀ text ∈ texts, '\n' ∉ text.toList := by
  constructor
  · intro eq
    exact (length_flatMap_lines_eq_iff nonempty).mp (congrArg List.length eq)
  · exact flatMap_lines nonempty

end Command

/-! ## Entries -/

namespace Output

theorem exists_value_of_mem {options : Options} (values : options.resultType = .value)
    {found : List Match} {entry : Matched} (mem : entry ∈ (ofMatches options found).toList) :
    ∃ value, entry = .value value := by
  rw [toList_ofMatches, values] at mem
  obtain ⟨m, _, mem⟩ := List.mem_flatMap.mp mem
  unfold expand at mem
  split at mem
  · obtain ⟨item, _, rfl⟩ := List.mem_map.mp mem
    exact ⟨item, rfl⟩
  · exact ⟨m.value, List.mem_singleton.mp mem⟩

theorem expand_path (flatten : Bool) (path : String) :
    expand flatten (.path path) = [.path path] := by
  cases flatten <;> rfl

theorem toList_of_paths {options : Options} (paths : options.resultType = .path)
    (found : List Match) :
    (ofMatches options found).toList = found.map fun m => .path m.path := by
  rw [toList_ofMatches, paths]
  simp only [project, expand_path]
  exact List.map_eq_flatMap.symm

end Output

theorem Options.resultType_resolve (options : Options) (branches : Bool) :
    (options.resolve branches).resultType = options.resultType := by
  rw [resolve]
  split <;> rfl

theorem Registry.mem_of_find?_foldl {entries : List (String × Func)} {registry : Registry}
    {name : String} {f : Func}
    (found : (entries.foldl (fun r entry => r.register entry.1 entry.2) registry).find? name = some f) :
    name ∈ entries.map Prod.fst ∨ registry.find? name = some f := by
  by_cases mem : name ∈ entries.map Prod.fst
  · exact .inl mem
  · rw [find?_foldl_of_notMem mem] at found
    exact .inr found

/-- The functions of a command have plain names. -/
theorem CompileSettings.break_notMem_of_find? {settings : CompileSettings} {name : String} {f : Func}
    (found : settings.options.functions.find? name = some f) : '\n' ∉ name.toList := by
  have names : ∀ name ∈ Standard.functions.map Prod.fst, '\n' ∉ name.toList := by decide
  have found : (if settings.standard then Registry.standard 0 else .empty).find? name = some f := found
  split at found
  · rcases Registry.mem_of_find?_foldl found with mem | found
    · exact names name mem
    · cases found
  · cases found

namespace Command

/-! ## Queries -/

theorem faulty_eq_ok_iff {α : Type} {result : Except Fault α} {a : α} :
    faulty result = .ok a ↔ result = .ok a := by
  cases result with
  | error _ => constructor <;> rintro ⟨⟩
  | ok _ => constructor <;> rintro ⟨⟩ <;> rfl

theorem run_query_eq_ok_iff {expression : String} {file : Option String}
    {settings : CompileSettings} {contents : Option String} {color : Bool} {text : String} :
    (Command.query expression file settings .text).run color contents = .ok text ↔
      ∃ document program output, (Source.ofArgument file).document contents = .ok document ∧
        Program.compile expression settings.options = .ok program ∧
        program.evaluate document none = .ok output ∧ outputText color output = text := by
  constructor
  · intro ran
    obtain ⟨document, read, ran⟩ := bind_eq_ok_iff.mp ran
    obtain ⟨program, compiled, ran⟩ := bind_eq_ok_iff.mp ran
    obtain ⟨output, evaluated, ran⟩ := bind_eq_ok_iff.mp ran
    exact ⟨document, program, output, read, faulty_eq_ok_iff.mp compiled,
      faulty_eq_ok_iff.mp evaluated, Except.ok.inj ran⟩
  · rintro ⟨document, program, output, read, compiled, evaluated, rfl⟩
    refine bind_eq_ok_iff.mpr ⟨document, read, ?_⟩
    refine bind_eq_ok_iff.mpr ⟨program, faulty_eq_ok_iff.mpr compiled, ?_⟩
    exact bind_eq_ok_iff.mpr ⟨output, faulty_eq_ok_iff.mpr evaluated, rfl⟩

theorem lines_outputText {output : Output}
    (ends : ∀ entry ∈ output.toList, EndsPlain (matchedLine false entry).toList) :
    lines (outputText false output) =
      (output.toList.map (matchedLine false)).flatMap lines := by
  refine lines_trimEnd_unlines ?_
  intro text mem
  obtain ⟨entry, entry_mem, rfl⟩ := List.mem_map.mp mem
  exact ends entry entry_mem

theorem break_notMem_entries_iff {options : Options} {records : List Match}
    (called : ∀ m ∈ records, ∀ text, .call text ∈ m.labels →
      ∃ name : String, '\n' ∉ name.toList ∧ text = name ++ "()") :
    (∀ text ∈ (Output.ofMatches options records).toList.map (matchedLine false), '\n' ∉ text.toList) ↔
      options.resultType = .value ∨ ∀ m ∈ records, m.Unbroken := by
  cases type : options.resultType with
  | value =>
      refine iff_of_true ?_ (.inl rfl)
      intro text mem
      obtain ⟨entry, entry_mem, rfl⟩ := List.mem_map.mp mem
      obtain ⟨value, rfl⟩ := Output.exists_value_of_mem type entry_mem
      exact value.oneLine_write.noBreak
  | path =>
      rw [Output.toList_of_paths type, List.map_map, List.forall_mem_map]
      constructor
      · intro noBreak
        exact .inr fun m mem => (Match.unbroken_iff (called m mem)).mpr (noBreak m mem)
      · rintro (⟨⟨⟩⟩ | unbroken) m mem
        exact (Match.unbroken_iff (called m mem)).mp (unbroken m mem)

theorem endsPlain_entries {options : Options} {records : List Match}
    (begun : ∀ m ∈ records, m.labels ≠ [])
    (called : ∀ m ∈ records, ∀ text, .call text ∈ m.labels → ∃ name : String, text = name ++ "()") :
    ∀ entry ∈ (Output.ofMatches options records).toList,
      EndsPlain (matchedLine false entry).toList := by
  intro entry mem
  cases type : options.resultType with
  | value =>
      obtain ⟨value, rfl⟩ := Output.exists_value_of_mem type mem
      exact value.oneLine_write.ends
  | path =>
      rw [Output.toList_of_paths type] at mem
      obtain ⟨m, m_mem, rfl⟩ := List.mem_map.mp mem
      exact Label.endsPlain_render (begun m m_mem) (called m m_mem)

/-- A query that prints text prints the entries of its result, in order.  There is one line for each
entry, the value compactly or the path, if values are printed; if paths are printed, there is one line
for each exactly if no name among the keys of the matches has a line feed. -/
theorem lines_of_query {expression : String} {file : Option String} {settings : CompileSettings}
    {contents : Option String} {text : String}
    (ran : (Command.query expression file settings .text).run false contents = .ok text) :
    ∃ document program records output,
      (Source.ofArgument file).document contents = .ok document ∧
      Program.compile expression settings.options = .ok program ∧
      program.records document none = .ok records ∧
      program.evaluate document none = .ok output ∧
      lines text = (output.toList.map (matchedLine false)).flatMap lines ∧
      (lines text = output.toList.map (matchedLine false) ↔
        settings.resultType = .value ∨ ∀ m ∈ records, m.Unbroken) ∧
      ((lines text).length = output.toList.length ↔
        settings.resultType = .value ∨ ∀ m ∈ records, m.Unbroken) := by
  obtain ⟨document, program, output, read, compiled, evaluated, rfl⟩ := run_query_eq_ok_iff.mp ran
  obtain ⟨records, matched, output_eq⟩ := map_eq_ok_iff.mp evaluated
  refine ⟨document, program, records, output, read, compiled, matched, evaluated, ?_⟩
  obtain ⟨steps, ops, parsed, lowered, program_eq⟩ := Program.compile_eq_ok_iff.mp compiled
  have type : program.options.resultType = settings.resultType := by
    rw [program_eq]
    exact Options.resultType_resolve settings.options _
  rw [program_eq] at matched
  have called : ∀ m ∈ records, ∀ text, .call text ∈ m.labels →
      ∃ name : String, '\n' ∉ name.toList ∧ text = name ++ "()" := by
    refine Program.exists_named_of_records lowered ?_ matched
    intro name f _ resolved
    rw [Trace.resolve_eq_ok_iff, Option.bind_none, Option.or_none] at resolved
    exact settings.break_notMem_of_find? resolved
  have ends : ∀ entry ∈ output.toList, EndsPlain (matchedLine false entry).toList := by
    rw [output_eq]
    refine endsPlain_entries (Program.labels_ne_nil_of_records lowered matched) ?_
    intro m mem text call
    obtain ⟨name, _, eq⟩ := called m mem text call
    exact ⟨name, eq⟩
  have nonempty : ∀ text ∈ output.toList.map (matchedLine false), text ≠ "" := by
    intro text mem
    obtain ⟨entry, entry_mem, rfl⟩ := List.mem_map.mp mem
    exact ne_of_endsPlain (ends entry entry_mem)
  have noBreak : (∀ text ∈ output.toList.map (matchedLine false), '\n' ∉ text.toList) ↔
      settings.resultType = .value ∨ ∀ m ∈ records, m.Unbroken := by
    rw [output_eq, ← type]
    exact break_notMem_entries_iff called
  have length : (output.toList.map (matchedLine false)).length = output.toList.length :=
    List.length_map _
  rw [← noBreak, lines_outputText ends, ← length]
  exact ⟨rfl, flatMap_lines_eq_iff nonempty, length_flatMap_lines_eq_iff nonempty⟩

/-- Values with a line feed in a string and in a name. -/
theorem lines_of_query_values :
    let settings : CompileSettings := ⟨.value, .auto, false, false⟩
    let contents := "\x7b\"a\\nb\":\"c\\nd\",\"e\":[1]\x7d"
    let text := "\"c\\nd\"\n[1]"
    (Command.query "$.*" none settings .text).run false (some contents) = .ok text ∧
      lines text = ["\"c\\nd\"", "[1]"] := by
  intro settings contents text
  let document := Json.obj [("a\nb", .str "c\nd"), ("e", .arr [.num (.integer 1)])]
  let program := Program.assemble "$.*" [.root, .wildcard] settings.options [.wildcard]
  let output := Output.sequence [.value (.str "c\nd"), .value (.arr [.num (.integer 1)])]
  have read : (Source.ofArgument none).document
      (some "\x7b\"a\\nb\":\"c\\nd\",\"e\":[1]\x7d") = .ok document := by
    rfl
  have compiled : Program.compile "$.*" settings.options = .ok program :=
    Program.compile_eq_ok_iff.mpr ⟨_, _, by rfl, by rfl, rfl⟩
  have matched : program.records document none =
      .ok [⟨[.root, .key (.name "a\nb")], .str "c\nd"⟩,
        ⟨[.root, .key (.name "e")], .arr [.num (.integer 1)]⟩] := by
    rw [Program.records_eq_recordsByHistory]
    rfl
  have evaluated : program.evaluate document none = .ok output := by
    rw [Program.evaluate, matched]
    rfl
  have ran : (Command.query "$.*" none settings .text).run false (some contents) = .ok text := by
    exact run_query_eq_ok_iff.mpr ⟨_, _, _, read, compiled, evaluated, by decide⟩
  obtain ⟨document', program', records, output', read', compiled', _, evaluated', _, each, _⟩ :=
    lines_of_query ran
  cases read.symm.trans read'
  cases compiled.symm.trans compiled'
  cases evaluated.symm.trans evaluated'
  refine ⟨ran, (each.mpr (.inl rfl)).trans ?_⟩
  decide

/-- Two paths on three lines: a name has a line feed. -/
theorem query_breaks_line :
    let settings : CompileSettings := ⟨.path, .auto, false, true⟩
    let contents := "\x7b\"a\\nb\":1,\"c\":2\x7d"
    let text := "$['a\nb']\n$['c']"
    (∃ document program output,
      (Source.ofArgument (some "doc.json")).document (some contents) = .ok document ∧
      Program.compile "$.*" settings.options = .ok program ∧
      program.evaluate document none = .ok output ∧ output.toList.length = 2) ∧
    (Command.query "$.*" (some "doc.json") settings .text).run false (some contents) = .ok text ∧
    lines text = ["$['a", "b']", "$['c']"] := by
  intro settings contents text
  let document := Json.obj [("a\nb", .num (.integer 1)), ("c", .num (.integer 2))]
  let program := Program.assemble "$.*" [.root, .wildcard] settings.options [.wildcard]
  let output := Output.sequence [.path "$['a\nb']", .path "$['c']"]
  have read : (Source.ofArgument (some "doc.json")).document
      (some "\x7b\"a\\nb\":1,\"c\":2\x7d") = .ok document := by
    rfl
  have compiled : Program.compile "$.*" settings.options = .ok program :=
    Program.compile_eq_ok_iff.mpr ⟨_, _, by rfl, by rfl, rfl⟩
  have matched : program.records document none =
      .ok [⟨[.root, .key (.name "a\nb")], .num (.integer 1)⟩,
        ⟨[.root, .key (.name "c")], .num (.integer 2)⟩] := by
    rw [Program.records_eq_recordsByHistory]
    rfl
  have type : program.options.resultType = .path := Options.resultType_resolve settings.options _
  have evaluated : program.evaluate document none = .ok output := by
    rw [Program.evaluate, matched]
    show Except.ok (Output.inSequence program.options _) = _
    rw [Output.inSequence, type]
    simp only [List.flatMap_cons, List.flatMap_nil, Output.project, Output.expand_path]
    rfl
  refine ⟨⟨document, program, output, read, compiled, evaluated, rfl⟩, ?_, by decide⟩
  exact run_query_eq_ok_iff.mpr ⟨_, _, _, read, compiled, evaluated, by decide⟩

end Command

end TreePath
