/-
# Recall — the path of a match with calls selects its value again

The path of a match is read back as one step for each of its labels, a call as the step that calls the same
function.  So it leads from the document to the value of the match along its labels, if the same functions
are bound.

Only a caret in the name of a call stands in the way: a bracket lets it through, and after a dot it is a step
back.  `recalls_of_records` has both cases, for every match of every path.  Without a caret the match is
recalled (`Recalls`), and with one its path is no path at all.  `caret_not_recalled` is a path of the
second kind.

The proof has three parts, one for each section: labels are read as their steps (`Settled.labels`), the steps
run along the labels (`answer_labels`), and the labels of a match are of the kind that this is about
(`traced_of_records`).
-/
import TreePath.Proofs.Path.Calls
import TreePath.Proofs.Program.Branches

namespace TreePath

namespace Label

/-- What can stand after the root of a branch: a key that fits, or the call of a function that a step can
name. -/
inductive Traced : Label → Prop
  | key {k : Key} : k.Fits → Traced (.key k)
  | call {name : String} : Callable name.toList → Traced (.call (name ++ "()"))

/-- A call with a caret in its name. -/
def HasCaret (label : Label) : Prop :=
  ∃ text, label = .call text ∧ '^' ∈ text.toList

def function (text : String) : String :=
  (called? text).getD text

theorem function_call (name : String) : function (name ++ "()") = name := by
  rw [function, called?_call]
  rfl

/-- The step that a label is read back as. -/
def step : Label → Step
  | .root => .root
  | .key k => .property k.canonical
  | .call text => .function (function text)

/-- The label that the step of a label gives. -/
def recalled : Label → Label
  | .key k => .key k.canonical
  | label => label

def op (functions : Registry) : Label → Op
  | .root => .start
  | .key k => .property k.canonical
  | .call text => .function (function text) (functions.find? (function text))

theorem fragment_recalled {label : Label} (traced : label.Traced) :
    label.recalled.fragment = label.fragment := by
  cases traced with
  | key fits => exact Key.fragment_canonical fits
  | call _ => rfl

theorem render_recalled {labels : List Label} (traced : ∀ l ∈ labels, l.Traced) :
    render (.root :: labels.map recalled) = render (.root :: labels) := by
  rw [render, render, List.map_cons, List.map_cons, List.map_map]
  have same : labels.map (fragment ∘ recalled) = labels.map fragment :=
    List.map_congr_left fun l mem => fragment_recalled (traced l mem)
  rw [same]

theorem toList_fragment_call (name : String) :
    (Label.call (name ++ "()")).fragment.toList = '.' :: (name.toList ++ ['(', ')']) := by
  rw [fragment, String.toList_append, String.toList_append]
  rfl

theorem mem_toList_call {name : String} {c : Char} (mem : c ∈ (name ++ "()").toList)
    (name_only : c ∉ ['(', ')']) : c ∈ name.toList := by
  rw [String.toList_append] at mem
  exact (List.mem_append.mp mem).resolve_right name_only

end Label

/-! ## Reading -/

namespace Scan

open Label

theorem Settled.label {steps : List Step} {s : State} (h : Settled steps s) {label : Label}
    (traced : label.Traced) (plain : ¬ label.HasCaret) :
    Leads s label.fragment.toList (Settled (label.step :: steps)) := by
  cases traced with
  | key fits =>
      obtain ⟨spelling, key, text⟩ := Key.exists_spelling fits
      rw [text, Label.step, ← key]
      exact (Bracketed.property spelling).scan (.settled h)
  | @call name callable =>
      have caret : '^' ∉ name.toList := by
        intro mem
        refine plain ⟨_, rfl, ?_⟩
        rw [String.toList_append]
        exact List.mem_append_left _ mem
      have leads := h.call callable caret
      rw [String.ofList_toList] at leads
      rw [toList_fragment_call, Label.step, function_call]
      exact leads

theorem Settled.labels {steps : List Step} {s : State} (h : Settled steps s) {labels : List Label}
    (traced : ∀ l ∈ labels, l.Traced) (plain : ∀ l ∈ labels, ¬ l.HasCaret) :
    Leads s (labels.flatMap fun l => l.fragment.toList)
      (Settled ((labels.map Label.step).reverse ++ steps)) := by
  induction labels generalizing steps s with
  | nil => exact ⟨s, .nil s, h⟩
  | cons label rest ih =>
      rw [List.flatMap_cons, List.map_cons, List.reverse_cons, List.append_assoc]
      refine (h.label (traced _ List.mem_cons_self) (plain _ List.mem_cons_self)).append ?_
      intro _ settled
      exact ih settled (fun l mem => traced l (List.mem_cons_of_mem _ mem))
        (fun l mem => plain l (List.mem_cons_of_mem _ mem))

theorem Settled.fails_labels {steps : List Step} {s : State} (h : Settled steps s)
    {labels : List Label} (traced : ∀ l ∈ labels, l.Traced) (caret : ∃ l ∈ labels, l.HasCaret) :
    Fails s (labels.flatMap fun l => l.fragment.toList) := by
  induction labels generalizing steps s with
  | nil =>
      obtain ⟨_, mem, _⟩ := caret
      cases mem
  | cons label rest ih =>
      have label_traced := traced label List.mem_cons_self
      rw [List.flatMap_cons]
      by_cases first : label.HasCaret
      · obtain ⟨text, rfl, mem⟩ := first
        cases label_traced with
        | @call name callable =>
            have flawed := h.fails_call callable (mem_toList_call mem (by decide))
              (')' :: rest.flatMap fun l => l.fragment.toList)
            rw [toList_fragment_call]
            simpa using flawed
      · obtain ⟨l, mem, l_caret⟩ := caret
        have later : l ∈ rest := by
          rcases List.mem_cons.mp mem with rfl | mem
          · exact absurd l_caret first
          · exact mem
        refine (h.label label_traced first).fails ?_
        intro _ settled
        exact ih settled (fun l mem => traced l (List.mem_cons_of_mem _ mem)) ⟨l, later, l_caret⟩

end Scan

namespace Label

theorem toList_render_root (labels : List Label) :
    (render (.root :: labels)).toList = '$' :: labels.flatMap fun l => l.fragment.toList := by
  rw [toList_render, List.flatMap_cons]
  rfl

theorem parse_render_traced {labels : List Label} (traced : ∀ l ∈ labels, l.Traced)
    (plain : ∀ l ∈ labels, ¬ l.HasCaret) :
    Step.parse (render (.root :: labels)) = .ok (.root :: labels.map step) := by
  have root : Scan.Settled [.root] ⟨1, .root, [.root]⟩ := .root
  obtain ⟨s, scans, settled⟩ := root.labels traced plain
  rw [← String.ofList_toList (s := render _), toList_render_root]
  refine Step.parse_eq_ok_iff.mpr ⟨Scan.not_blank_root _, ?_⟩
  refine Scan.steps_eq_ok_iff.mpr ⟨s, .cons rfl scans, ?_⟩
  rw [settled.finish]
  simp

theorem parse_render_caret {labels : List Label} (traced : ∀ l ∈ labels, l.Traced)
    (caret : ∃ l ∈ labels, l.HasCaret) :
    ∃ position flaw, Step.parse (render (.root :: labels)) =
      .error (.path (render (.root :: labels)) position flaw) := by
  have root : Scan.Settled [.root] ⟨1, .root, [.root]⟩ := .root
  have fails : Scan.Fails .start ('$' :: labels.flatMap fun l => l.fragment.toList) :=
    .cons rfl (root.fails_labels traced caret)
  obtain ⟨⟨position, flaw⟩, flawed⟩ := Scan.steps_of_fails fails
  refine ⟨position, flaw, ?_⟩
  rw [Step.parse, toList_render_root, Scan.not_blank_root, flawed]
  rfl

end Label

/-! ## Running -/

namespace Program

open Label

variable {document : Json} {context : Option Registry}

theorem lower_labels (options : Options) {labels : List Label} (traced : ∀ l ∈ labels, l.Traced) :
    Step.lower options (labels.map step) = .ok (labels.map (op options.functions)) := by
  induction labels with
  | nil => rfl
  | cons label rest ih =>
      have others := ih fun l mem => traced l (List.mem_cons_of_mem _ mem)
      have first : Step.lower options [label.step] = .ok [label.op options.functions] := by
        cases traced label List.mem_cons_self with
        | key _ => rfl
        | call _ => rfl
      show Step.lower options ([label.step] ++ rest.map step) = _
      rw [Step.lower_append, first, others]
      rfl

theorem answer_function {name : String} {bound : Option Func} {f : Func} {h : History}
    {result : Json} (rest : List Op) (resolved : Trace.resolve context name bound = .ok f)
    (applied : f.apply (h.value document) = .ok result) :
    answer document context (.function name bound :: rest) h =
      answer document context rest ((.call (name ++ "()"), result) :: h) := by
  rw [answer_call resolved, applied]
  rfl

theorem exists_of_retrace?_call {program : Program} {name : String} {value result : Json}
    (leads : program.retrace? context value (.call (name ++ "()")) = some result) :
    ∃ f, program.function? context name = some f ∧ f.apply value = .ok result := by
  rw [retrace?, called?_call] at leads
  obtain ⟨_, ⟨⟩, leads⟩ := Option.bind_eq_some_iff.mp leads
  obtain ⟨f, found, leads⟩ := Option.bind_eq_some_iff.mp leads
  refine ⟨f, found, ?_⟩
  cases applied : f.apply value with
  | error _ =>
      rw [applied] at leads
      cases leads
  | ok value =>
      rw [applied] at leads
      cases leads
      rfl

theorem answer_label {program : Program} {label : Label} (traced : label.Traced) {h : History}
    {next : Json} (rest : List Op)
    (leads : program.retrace? context (h.value document) label = some next) :
    answer document context (label.op program.options.functions :: rest) h =
      answer document context rest ((label.recalled, next) :: h) := by
  cases traced with
  | key fits =>
      refine answer_property rest ?_
      rw [Key.child?, Key.position?_canonical fits]
      exact leads
  | @call name _ =>
      obtain ⟨f, found, applied⟩ := exists_of_retrace?_call leads
      rw [op, function_call]
      exact answer_function rest (Trace.resolve_eq_ok_iff.mpr found) applied

theorem answer_labels {program : Program} {labels : List Label} (traced : ∀ l ∈ labels, l.Traced)
    {h : History} {last : Json} (begun : h ≠ [])
    (leads : program.replay? context labels (h.value document) = some last) :
    answer document context (labels.map (op program.options.functions) ++ [.emit]) h =
      .ok [⟨h.labels ++ labels.map recalled, last⟩] := by
  induction labels generalizing h with
  | nil =>
      cases leads
      rw [List.map_nil, List.map_nil, List.nil_append, List.append_nil, answer_emit begun]
  | cons label rest ih =>
      rw [replay?, List.foldlM_cons] at leads
      obtain ⟨next, first, others⟩ := Option.bind_eq_some_iff.mp leads
      have traced_rest := fun l mem => traced l (List.mem_cons_of_mem _ mem)
      have answered := ih (h := (label.recalled, next) :: h) traced_rest (by simp) others
      rw [List.map_cons, List.cons_append, answer_label (traced _ List.mem_cons_self) _ first,
        answered, History.labels_cons, List.append_assoc]
      rfl

end Program

/-! ## The labels of matches -/

namespace History

variable {document : Json} {context : Option Registry}

theorem Regular.fits {h : History} (regular : h.Regular document) {key : Key}
    (mem : .key key ∈ h.labels) : key.Fits := by
  induction regular with
  | root => cases List.mem_singleton.mp mem
  | key _ fits _ ih =>
      rw [labels_cons] at mem
      rcases List.mem_append.mp mem with mem | mem
      · exact ih mem
      · cases List.mem_singleton.mp mem
        exact fits
  | call _ _ ih =>
      rw [labels_cons] at mem
      rcases List.mem_append.mp mem with mem | mem
      · exact ih mem
      · cases List.mem_singleton.mp mem

end History

namespace Program

variable {document : Json} {context : Option Registry}

/-- The labels of a match after the root are those that a path can be written for, and lead to its
value. -/
theorem traced_of_records {expression : String} {options : Options} {program : Program}
    (compiled : compile expression options = .ok program)
    (document_proper : document.Proper) (options_proper : options.functions.Proper)
    (context_proper : ∀ functions, context = some functions → functions.Proper)
    {records : List Match} (matched : program.records document context = .ok records) :
    ∀ m ∈ records, ∃ labels, m.labels = .root :: labels ∧ (∀ l ∈ labels, l.Traced) ∧
      program.replay? context labels document = some m.value := by
  intro m mem
  obtain ⟨branch, regular, rfl⟩ :=
    regular_of_compile context_proper document_proper compiled options_proper matched m mem
  obtain ⟨steps, ops, parsed, lowered, rfl⟩ := compile_eq_ok_iff.mp compiled
  obtain ⟨hs, reached, replays, rfl⟩ :=
    exists_replays_of_records lowered document_proper options_proper context_proper matched
  have callable : ∀ name f, .function name ∈ steps →
      Trace.resolve context name (options.functions.find? name) = .ok f → Callable name.toList :=
    fun _ _ step_mem _ => Step.callable_of_parse parsed step_mem
  have named := exists_named_of_records lowered callable matched _ mem
  obtain ⟨h, h_mem, same⟩ := List.mem_map.mp mem
  obtain ⟨labels, eq, leads⟩ := (replays h h_mem).replay?
  have branch_labels : branch.labels = .root :: labels := (congrArg Match.labels same).symm.trans eq
  have value : h.value document = branch.value document := congrArg Match.value same
  refine ⟨labels, branch_labels, ?_, value ▸ leads⟩
  intro l l_mem
  cases l with
  | root => exact absurd l_mem (root_notMem_of_replay? leads)
  | key key =>
      refine .key (regular.fits ?_)
      rw [branch_labels]
      exact List.mem_cons_of_mem _ l_mem
  | call text =>
      obtain ⟨name, callable, rfl⟩ := named text (branch_labels ▸ List.mem_cons_of_mem _ l_mem)
      exact .call callable

/-- The path of a match compiles to one step for each of its labels, and has one match in the document:
with the same value and the same path. -/
def Recalls (document : Json) (context : Option Registry) (options : Options) (m : Match) : Prop :=
  ∃ (again : Program) (m' : Match), compile m.path options = .ok again ∧
    again.steps = m.labels.map Label.step ∧ again.records document context = .ok [m'] ∧
    m'.value = m.value ∧ m'.path = m.path

/-- The path of a match selects its value again where the same functions are bound, calls included, if
no name of a call has a caret; and if one has, the path is no path. -/
theorem recalls_of_records {expression : String} {options : Options} {program : Program}
    (compiled : compile expression options = .ok program)
    (document_proper : document.Proper) (options_proper : options.functions.Proper)
    (context_proper : ∀ functions, context = some functions → functions.Proper)
    {records : List Match} (matched : program.records document context = .ok records)
    {options' : Options} (same : options'.functions = options.functions) :
    ∀ m ∈ records,
      ((∀ l ∈ m.labels, ¬ l.HasCaret) → Recalls document context options' m) ∧
      ((∃ l ∈ m.labels, l.HasCaret) → ∃ position flaw,
        compile m.path options' = .error (.path m.path position flaw)) := by
  intro m mem
  obtain ⟨labels, eq, traced, leads⟩ :=
    traced_of_records compiled document_proper options_proper context_proper matched m mem
  have path : m.path = Label.render (.root :: labels) := by rw [Match.path, eq]
  have functions : program.options.functions = options'.functions := by
    obtain ⟨steps, ops, _, _, rfl⟩ := compile_eq_ok_iff.mp compiled
    rw [functions_assemble, same]
  rw [eq]
  constructor
  · intro plain
    have parsed := Label.parse_render_traced traced fun l mem => plain l (List.mem_cons_of_mem _ mem)
    have lowered : Step.lower options' (.root :: labels.map Label.step) =
        .ok (labels.map (Label.op options'.functions)) := by
      rw [Step.lower_root, lower_labels options' traced]
    refine ⟨_, ⟨.root :: labels.map Label.recalled, m.value⟩,
      compile_eq_ok_iff.mpr ⟨_, _, path ▸ parsed, lowered, rfl⟩, ?_, ?_, rfl, ?_⟩
    · rw [eq]
      rfl
    · rw [records_assemble, ← functions, answer_labels traced (List.cons_ne_nil _ _) leads]
      rfl
    · rw [path, Match.path, Label.render_recalled traced]
  · rintro ⟨l, l_mem, caret⟩
    have later : l ∈ labels := by
      rcases List.mem_cons.mp l_mem with rfl | mem
      · obtain ⟨_, ⟨⟩, _⟩ := caret
      · exact mem
    obtain ⟨position, flaw, flawed⟩ := Label.parse_render_caret traced ⟨l, later, caret⟩
    refine ⟨position, flaw, ?_⟩
    rw [path, compile_eq, flawed]
    rfl

/-- A function that is called from a bracket, and again on an item of its result. -/
theorem recalls_of_records_calls :
    let wrap : Func := ⟨0, fun value => .ok (.arr [value])⟩
    let options := { Options.default with functions := Registry.empty.register "f" wrap }
    let call := Op.function "f" (some wrap)
    let program := assemble "$[ f() ][0].f()"
      [.root, .function "f", .property (.index 0), .function "f"] options
      [call, .property (.index 0), call]
    let m : Match := ⟨[.root, .call "f()", .key (.index 0), .call "f()"], .arr [.null]⟩
    compile "$[ f() ][0].f()" options = .ok program ∧
      program.records .null none = .ok [m] ∧ m.path = "$.f()[0].f()" ∧
      Recalls .null none options m := by
  intro wrap options call program m
  have compiled : compile "$[ f() ][0].f()" options = .ok program :=
    compile_eq_ok_iff.mpr ⟨_, _, by rfl, by rfl, rfl⟩
  have matched : program.records .null none = .ok [m] := by
    rw [records_eq_recordsByHistory]
    rfl
  have wrap_proper : wrap.Proper := by
    intro value result proper applied
    cases applied
    exact ⟨show 1 ≤ 1 <<< 64 by decide, proper, trivial⟩
  have options_proper : options.functions.Proper := by
    intro name f found
    rw [Registry.find?_register] at found
    split at found
    · exact Option.some.inj found ▸ wrap_proper
    · cases found
  have null_proper : Json.null.Proper := trivial
  have same : options.functions = options.functions := rfl
  obtain ⟨recalls, _⟩ := recalls_of_records compiled null_proper options_proper
    (by rintro _ ⟨⟩) matched same m List.mem_cons_self
  refine ⟨compiled, matched, by decide, recalls ?_⟩
  rintro l mem ⟨text, rfl, caret⟩
  simp only [m, List.mem_cons, reduceCtorEq, Label.call.injEq, List.not_mem_nil, or_false,
    false_or, or_self] at mem
  subst mem
  revert caret
  decide

/-- A name with a caret in a bracket: the call is made, and its path is no path. -/
theorem caret_not_recalled :
    let one : Func := ⟨0, fun _ => .ok (.num (.integer 1))⟩
    let options := { Options.default with functions := Registry.empty.register "a^b" one }
    let m : Match := ⟨[.root, .call "a^b()"], .num (.integer 1)⟩
    (∃ program, compile "$[a^b()]" options = .ok program ∧
      program.records .null none = .ok [m]) ∧
    m.path = "$.a^b()" ∧
    compile m.path options = .error (.path "$.a^b()" 4 (.unexpected 'b')) := by
  intro one options m
  have path : m.path = "$.a^b()" := by decide
  refine ⟨⟨assemble "$[a^b()]" [.root, .function "a^b"] options [.function "a^b" (some one)], ?_, ?_⟩,
    path, ?_⟩
  · exact compile_eq_ok_iff.mpr ⟨_, _, by rfl, by rfl, rfl⟩
  · rw [records_eq_recordsByHistory]
    rfl
  · rw [path, compile_eq]
    rfl

end Program

end TreePath
