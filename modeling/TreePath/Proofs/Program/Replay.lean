/-
# Replay — the labels of a match lead to its value

A match is told by its labels.  Taken again from the document, one after the other, each key finds a child of
the value before it and each call applies the function that the program has for its name, and the last value
is that of the match.  What the branch went through on its way, and left again, does not show.

`replay?` takes labels again, and is defined without operations, branches or trails.  `replay?_of_records`
says that the labels of every match begin at the root, which is not met again, and replay to its value.

`History.Replays` is the invariant on branches: each label leads from the value before it to its own.  A step
puts a label on top that leads to the new value, or goes back to what was before (`Op.Successor.replays`).  In
a proper document the key that a child is listed under leads to the child, so descent and wildcards are
covered too.
-/
import TreePath.Proofs.Program.Binding
import TreePath.Proofs.Program.Regular

namespace TreePath

def Label.called? (text : String) : Option String :=
  (['(', ')'].isSuffixOf? text.toList).map String.ofList

theorem Label.called?_call (name : String) : called? (name ++ "()") = some name := by
  have suffix : ['(', ')'].isSuffixOf? (name ++ "()").toList = some name.toList := by
    rw [List.isSuffixOf?_eq_some_iff_append_eq, String.toList_append]
    rfl
  rw [called?, suffix, Option.map_some, String.ofList_toList]

namespace Program

section
variable (program : Program) (context : Option Registry)

/-- The function that a program has for a name: its own, else the one of the context. -/
def function? (name : String) : Option Func :=
  (program.options.functions.find? name).or (context.bind (·.find? name))

/-- Takes one label again, from the value before it.  Nothing leads back to the root. -/
def retrace? (value : Json) : Label → Option Json
  | .root => none
  | .key key => key.child? value
  | .call text => do
    let name ← Label.called? text
    let f ← program.function? context name
    (f.apply value).toOption

/-- Takes labels again, one after the other. -/
def replay? (labels : List Label) (value : Json) : Option Json :=
  labels.foldlM (program.retrace? context) value

end

variable {program : Program} {context : Option Registry}

theorem replay?_concat {labels : List Label} {label : Label} {first last next : Json}
    (leads : program.replay? context labels first = some last)
    (label_leads : program.retrace? context last label = some next) :
    program.replay? context (labels ++ [label]) first = some next := by
  rw [replay?, List.foldlM_append]
  refine Option.bind_eq_some_iff.mpr ⟨last, leads, ?_⟩
  rw [List.foldlM_cons]
  exact Option.bind_eq_some_iff.mpr ⟨next, label_leads, rfl⟩

theorem root_notMem_of_replay? {labels : List Label} {first last : Json}
    (leads : program.replay? context labels first = some last) : .root ∉ labels := by
  induction labels generalizing first with
  | nil => exact List.not_mem_nil
  | cons label rest ih =>
      rw [replay?, List.foldlM_cons] at leads
      obtain ⟨next, first_leads, rest_leads⟩ := Option.bind_eq_some_iff.mp leads
      intro mem
      rcases List.mem_cons.mp mem with rfl | mem
      · cases first_leads
      · exact ih rest_leads mem

theorem retrace?_call {name : String} {f : Func} {value result : Json}
    (found : program.function? context name = some f) (applied : f.apply value = .ok result) :
    program.retrace? context value (.call (name ++ "()")) = some result := by
  rw [retrace?, Label.called?_call]
  refine Option.bind_eq_some_iff.mpr ⟨name, rfl, Option.bind_eq_some_iff.mpr ⟨f, found, ?_⟩⟩
  rw [applied]
  rfl

end Program

/-- A branch each of whose labels leads from the value before it to its own. -/
inductive History.Replays (program : Program) (context : Option Registry) (document : Json) :
    History → Prop
  | root : History.Replays program context document [(.root, document)]
  | label {h : History} {label : Label} {value : Json} :
      History.Replays program context document h → value.Proper →
      program.retrace? context (h.value document) label = some value →
      History.Replays program context document ((label, value) :: h)

namespace History

variable {program : Program} {context : Option Registry} {document : Json}

theorem Replays.value {h : History} (replays : h.Replays program context document)
    (proper : document.Proper) : (h.value document).Proper := by
  cases replays with
  | root => exact proper
  | label _ value _ => exact value

theorem Replays.replay? {h : History} (replays : h.Replays program context document) :
    ∃ labels, h.labels = .root :: labels ∧
      program.replay? context labels document = some (h.value document) := by
  induction replays with
  | root => exact ⟨[], rfl, rfl⟩
  | @label h label value _ _ leads ih =>
      obtain ⟨labels, eq, before⟩ := ih
      refine ⟨labels ++ [label], ?_, Program.replay?_concat before leads⟩
      rw [labels_cons, eq, List.cons_append]

theorem Below.replays {h h' : History} (below : h.Below document h')
    (replays : h.Replays program context document) (proper : document.Proper) :
    h'.Replays program context document := by
  induction below with
  | here => exact replays
  | @child h' key child _ listed ih =>
      have owner := ih.value proper
      have under := owner.child?_of_listed listed
      exact .label ih (owner.child? under) under

end History

/-- An operation of a program calls only what the program has for the name. -/
def Op.BoundIn (program : Program) (op : Op) : Prop :=
  ∀ name bound, op = .function name bound → bound = program.options.functions.find? name

section

variable {program : Program} {context : Option Registry} {document : Json}

theorem Op.BoundIn.function? {name : String} {bound : Option Func} {f : Func}
    (isBound : Op.BoundIn program (.function name bound))
    (resolved : Trace.resolve context name bound = .ok f) :
    program.function? context name = some f := by
  rw [isBound name bound rfl, Trace.resolve] at resolved
  split at resolved
  · rename_i g found
    cases resolved
    exact found
  · cases resolved

/-- The functions that a program has are those of its options and those of the context. -/
theorem Program.proper_of_function? (options_proper : program.options.functions.Proper)
    (context_proper : ∀ functions, context = some functions → functions.Proper) {name : String}
    {f : Func} (found : program.function? context name = some f) : f.Proper := by
  rcases Option.or_eq_some_iff.mp found with found | ⟨_, found⟩
  · exact options_proper name f found
  · obtain ⟨functions, given, found⟩ := Option.bind_eq_some_iff.mp found
    exact context_proper functions given name f found

/-- A step keeps a branch replaying: it puts a label on top that leads to the new value, or goes back to
what was before. -/
theorem Op.Successor.replays {op : Op} {h h' : History}
    (step : op.Successor document context h h') (isBound : op.BoundIn program)
    (functions : ∀ name f, program.function? context name = some f → f.Proper)
    (proper : document.Proper) (replays : h.Replays program context document) :
    h'.Replays program context document := by
  have value := replays.value proper
  cases step with
  | start _ => exact .root
  | chosen _ named => exact .label replays (value.child? named) named
  | below below => exact below.replays replays proper
  | up eq more =>
      subst eq
      cases replays with
      | root => exact absurd rfl more
      | label rest _ _ => exact rest
  | call eq resolved applied =>
      subst eq
      have found := isBound.function? resolved
      exact .label replays (functions _ _ found _ _ value applied)
        (Program.retrace?_call found applied)

end

namespace Program

theorem functions_assemble (source : String) (steps : List Step) (options : Options)
    (ops : List Op) : (assemble source steps options ops).options.functions = options.functions := by
  show (options.resolve _).functions = _
  rw [Options.resolve]
  split <;> rfl

variable {document : Json} {context : Option Registry}

/-- The labels of a match begin at the root, which is not met again, and lead from the document to the
value of the match. -/
theorem replay?_of_records {expression : String} {options : Options} {program : Program}
    (compiled : compile expression options = .ok program)
    (document_proper : document.Proper) (options_proper : options.functions.Proper)
    (context_proper : ∀ functions, context = some functions → functions.Proper)
    {records : List Match} (matched : program.records document context = .ok records) :
    ∀ m ∈ records, ∃ labels, m.labels = .root :: labels ∧ .root ∉ labels ∧
      program.replay? context labels document = some m.value := by
  obtain ⟨steps, ops, _, lowered, rfl⟩ := compile_eq_ok_iff.mp compiled
  obtain ⟨hs, reached, _, rfl⟩ := reached_of_records (Step.plain_of_lower lowered) matched
  have bound : ∀ op ∈ ops, op.BoundIn (assemble expression steps options ops) := by
    rintro op mem name bound rfl
    obtain ⟨_, _, _, compiles⟩ := Step.exists_of_mem_lower lowered mem
    rw [functions_assemble]
    cases compiles
    rfl
  have functions : ∀ name f,
      (assemble expression steps options ops).function? context name = some f → f.Proper := by
    intro name f found
    rw [← functions_assemble expression steps options ops] at options_proper
    exact proper_of_function? options_proper context_proper found
  have replays : ∀ h ∈ hs, h.Replays (assemble expression steps options ops) context document :=
    reached_induction (fun op mem _ _ replays step =>
      step.replays (bound op mem) functions document_proper replays) .root reached
  intro m mem
  obtain ⟨h, h_mem, rfl⟩ := List.mem_map.mp mem
  obtain ⟨labels, eq, leads⟩ := (replays h h_mem).replay?
  exact ⟨labels, eq, root_notMem_of_replay? leads, leads⟩

/-- A call that is left again and made anew, and an item of its result. -/
theorem replay?_of_records_call :
    let wrap : Func := ⟨0, fun value => .ok (.arr [value])⟩
    let options := { Options.default with functions := Registry.empty.register "f" wrap }
    let call := Op.function "f" (some wrap)
    let program := assemble "$.f()^.f()[0]"
      [.root, .function "f", .parent, .function "f", .property (.index 0)] options
      [call, .parent, call, .property (.index 0)]
    let labels := [Label.call "f()", .key (.index 0)]
    compile "$.f()^.f()[0]" options = .ok program ∧
      program.records .null none = .ok [⟨.root :: labels, .null⟩] ∧
      .root ∉ labels ∧ program.replay? none labels .null = some .null := by
  intro wrap options call program labels
  have compiled : compile "$.f()^.f()[0]" options = .ok program :=
    compile_eq_ok_iff.mpr ⟨_, _, by rfl, by rfl, rfl⟩
  have matched : program.records .null none = .ok [⟨.root :: labels, .null⟩] := by
    rw [records_eq_recordsByHistory]
    rfl
  have wrap_proper : wrap.Proper := by
    intro value result proper applied
    cases applied
    exact ⟨show 1 ≤ 1 <<< 64 by decide, proper, trivial⟩
  have options_proper : options.functions.Proper := by
    intro name f found
    rw [Registry.find?_register] at found
    split at found
    · exact Option.some.inj found ▸ wrap_proper
    · cases found
  have null_proper : Json.null.Proper := trivial
  obtain ⟨labels', eq, noRoot, leads⟩ := replay?_of_records compiled null_proper options_proper
    (by rintro _ ⟨⟩) matched _ List.mem_cons_self
  cases eq
  exact ⟨compiled, matched, noRoot, leads⟩

end Program

end TreePath
