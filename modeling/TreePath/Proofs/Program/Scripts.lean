/-
# Scripts — what a script sees of the matches before it

A script is evaluated at the value of a match and its canonical path.  A filter keeps, of the matches that all
children would give, those that its script holds of; a script leads each match to the child that it selects
there.  Both go through the matches in order and end in the first fault.

`records_scripts` has the two equations: the matches of a path with a filter or a script at its end, by
`keep?` and `select?` on the matches of the path without it.

The path is written only for scripts that look at it, and for a filter from the branch above the candidate and
the key of the candidate.  Neither shows: a script that does not mention the path has one value whatever the
path is (`evaluate_usesPath`), and the path of a candidate is that of its match (`map_survivors`).
-/
import TreePath.Proofs.Program.Compiled
import TreePath.Proofs.Script.Embedding
import TreePath.Proofs.Trail.Locality

namespace TreePath

/-! ## Scripts that do not look at the path -/

theorem Expr.eval_of_usesPath_eq_false {e : Expr} (h : e.usesPath = false) (value : Json)
    (path path' : Option String) : e.eval value path = e.eval value path' := by
  induction e with
  | literal _ => rfl
  | value => rfl
  | path => cases h
  | member target name ih => rw [eval, eval, ih h]
  | index target position ih ih' =>
      obtain ⟨left, right⟩ := Bool.or_eq_false_iff.mp h
      rw [eval, eval, ih left, ih' right]
  | unary op operand ih => cases op <;> rw [eval, eval, ih h]
  | binary op left right ih ih' =>
      obtain ⟨first, second⟩ := Bool.or_eq_false_iff.mp h
      rw [eval, eval, ih first, ih' second]

namespace Script

/-- That the path is left out for a script that does not look at it does not show. -/
theorem evaluate_usesPath (script : Script) (value : Json) (path : String) :
    script.evaluate value (if script.usesPath then some path else none) =
      script.evaluate value (some path) := by
  split
  · rfl
  · rename_i blind
    rw [evaluate, evaluate,
      Expr.eval_of_usesPath_eq_false (Bool.eq_false_iff.mpr blind) value none (some path)]

theorem test_usesPath (script : Script) (value : Json) (path : String) :
    script.test value (if script.usesPath then some path else none) =
      script.test value (some path) := by
  rw [test, evaluate_usesPath, test]

theorem key_usesPath (script : Script) (value : Json) (path : String) :
    script.key value (if script.usesPath then some path else none) =
      script.key value (some path) := by
  rw [key, evaluate_usesPath, key]

def keep? (script : Script) (m : Match) : Except Fault (Option Match) := do
  return if ← script.test m.value (some m.path) then some m else none

/-- The child of a match under the key that the script selects at its value and path, if there is
one. -/
def select? (script : Script) (m : Match) : Except Fault (Option Match) := do
  let key ← script.key m.value (some m.path)
  return (key.child? m.value).map fun child => ⟨m.labels ++ [.key key], child⟩

end Script

/-! ## Filters and scripts at branches -/

namespace History

variable {document : Json} {context : Option Registry}

/-- Branches that each report the matches that something keeps of a list of their own report together
what it keeps of all these lists. -/
theorem runAll_filterMapM {reference : History → Except Fault (List Match)}
    {own : History → List Match} {kept : Match → Except Fault (Option Match)} {hs : List History}
    (each : ∀ h ∈ hs, reference h = (own h).filterMapM kept) :
    runAll reference hs = (hs.flatMap own).filterMapM kept := by
  induction hs with
  | nil => rfl
  | cons h hs ih =>
      rw [runAll_cons, List.flatMap_cons, filterMapM_append, each h List.mem_cons_self,
        ih fun h mem => each h (List.mem_cons_of_mem _ mem)]

theorem map_survivors (script : Script) (hs : List History) :
    (survivors script document hs).map (List.map (toMatch document)) =
      (hs.map (toMatch document)).filterMapM script.keep? := by
  induction hs with
  | nil => rfl
  | cons h rest ih =>
      rw [survivors, ← path_toMatch document, Script.test_usesPath, List.map_cons,
        filterMapM_cons, ← ih, Script.keep?]
      show _ = (script.test (h.value document) _ >>= _) >>= _
      cases script.test (h.value document) (some (h.toMatch document).path) with
      | error _ => rfl
      | ok holds =>
          cases survivors script document rest with
          | error _ => cases holds <;> rfl
          | ok others => cases holds <;> rfl

end History

namespace Program

variable {document : Json} {context : Option Registry}

theorem answer_filter (script : Script) (h : History) :
    answer document context [.filter script, .emit] h =
      ((h.children (h.value document)).map (History.toMatch document)).filterMapM script.keep? := by
  rw [← History.map_survivors]
  show (History.survivors script document (h.children (h.value document)) >>= _) = _
  cases found : History.survivors script document (h.children (h.value document)) with
  | error _ => rfl
  | ok kept =>
      refine runAll_emit ?_
      intro h' mem
      obtain ⟨_, _, rfl⟩ := List.mem_map.mp (History.mem_of_survivors found mem)
      exact List.cons_ne_nil _ _

theorem answer_script (script : Script) (h : History) :
    answer document context [.script script, .emit] h =
      [h.toMatch document].filterMapM script.select? := by
  rw [filterMapM_cons, Script.select?]
  show ((script.key (h.value document) _ >>= _) >>= _) = _
  rw [← History.path_toMatch document, Script.key_usesPath]
  show _ = (script.key (h.value document) _ >>= _) >>= _
  cases script.key (h.value document) (some (h.toMatch document).path) with
  | error _ => rfl
  | ok key =>
      show answer document context [.property key, .emit] h =
        .ok (((key.child? (h.value document)).map _).toList ++ [])
      rw [answer_property_emit, List.append_nil]
      rfl

/-! ## Scripts at the end of a path -/

theorem compile_concat {path bracket : String} {options : Options} {steps : List Step}
    {ops : List Op} {step : Step} {op : Op} (parsed : Step.parse path = .ok steps)
    (lowered : Step.lower options steps = .ok ops) (opens : bracket.toList.head? = some '[')
    (parsed' : Step.parse ("$" ++ bracket) = .ok [.root, step])
    (lowered' : Step.lower options [step] = .ok [op]) :
    compile (path ++ bracket) options =
      .ok (assemble (path ++ bracket) (steps ++ [step]) options (ops ++ [op])) := by
  obtain ⟨_, eq, whole⟩ := Step.parse_append (.inr opens) parsed parsed'
  cases eq
  refine compile_eq_ok_iff.mpr ⟨_, _, whole, ?_, rfl⟩
  rw [Step.lower_append, lowered, lowered']
  rfl

/-- A filter at the end of a path keeps, of the matches that all children give, those that its script
holds of at their values and paths; a script leads each match of the path to the child that it selects at
the value and path of the match.  The first fault ends both. -/
theorem records_scripts {path body : String} {options : Options} {outer : Program} {script : Script}
    (compiled : compile path options = .ok outer) (script_compiled : Script.compile body = .ok script)
    (trimmed : Text.trim body.toList = body.toList) (document : Json)
    (context : Option Registry) :
    ∃ candidates filtered selected,
      compile (path ++ "[*]") options = .ok candidates ∧
      compile (path ++ ("[?(" ++ body ++ ")]")) options = .ok filtered ∧
      compile (path ++ ("[(" ++ body ++ ")]")) options = .ok selected ∧
      (∀ records, candidates.records document context = .ok records →
        filtered.records document context = records.filterMapM script.keep?) ∧
      ∀ records, outer.records document context = .ok records →
        selected.records document context = records.filterMapM script.select? := by
  obtain ⟨steps, ops, parsed, lowered, rfl⟩ := compile_eq_ok_iff.mp compiled
  have plain := Step.plain_of_lower lowered
  obtain ⟨script_parsed, filter_parsed, -⟩ := Script.survives_embedding script_compiled
  rw [trimmed, String.ofList_toList] at script_parsed filter_parsed
  have rooted : ∀ opening, "$" ++ (opening ++ body ++ ")]") = "$" ++ opening ++ body ++ ")]" := by
    intro opening
    rw [← String.append_assoc, ← String.append_assoc]
  have opens : ∀ opening, opening.toList.head? = some '[' →
      (opening ++ body ++ ")]").toList.head? = some '[' := by
    intro opening first
    rw [String.toList_append, String.toList_append, List.head?_append, List.head?_append, first]
    rfl
  have filter_lowered : Step.lower options [.filter body] = .ok [.filter script] := by
    show ((Script.compile body).map Op.filter >>= _) = _
    rw [script_compiled]
    rfl
  have script_lowered : Step.lower options [.script body] = .ok [.script script] := by
    show ((Script.compile body).map Op.script >>= _) = _
    rw [script_compiled]
    rfl
  have wildcard_parsed : Step.parse ("$" ++ "[*]") = .ok [.root, .wildcard] := by rfl
  refine ⟨_, _, _, compile_concat parsed lowered rfl wildcard_parsed rfl,
    compile_concat parsed lowered (opens _ rfl) (rooted _ ▸ filter_parsed) filter_lowered,
    compile_concat parsed lowered (opens _ rfl) (rooted _ ▸ script_parsed) script_lowered, ?_, ?_⟩
  · intro records found
    cases reached : Program.reached document context ops [(.root, document)] with
    | error fault =>
        obtain ⟨_, failed⟩ : ∃ fault', answer document context (ops ++ [.wildcard, .emit])
            [(.root, document)] = .error fault' := answer_append_error plain reached
        rw [records_assemble, List.append_assoc] at found
        cases failed.symm.trans found
    | ok hs =>
        rw [records_concat plain reached,
          History.runAll_flatMap fun h _ => answer_wildcard h] at found
        cases found
        rw [records_concat plain reached]
        exact History.runAll_filterMapM fun h _ => answer_filter script h
  · intro records found
    obtain ⟨hs, reached, _, rfl⟩ := reached_of_records plain found
    rw [records_concat plain reached,
      History.runAll_filterMapM fun h _ => answer_script script h, ← List.map_eq_flatMap]
    rfl

/-- A filter by the path of the candidate. -/
theorem records_scripts_path :
    let body := "@path === \"$['a'][1]\""
    let script : Script := ⟨body, .binary .strictEq .path (.literal (.string "$['a'][1]"))⟩
    let outer := assemble "$.a" [.root, .property (.name "a")] .default [.property (.name "a")]
    let document := Json.obj [("a", .arr [.null, .bool true])]
    compile "$.a" .default = .ok outer ∧ Script.compile body = .ok script ∧
      Text.trim body.toList = body.toList ∧
      ∃ filtered, compile ("$.a" ++ ("[?(" ++ body ++ ")]")) .default = .ok filtered ∧
        filtered.records document none =
          .ok [⟨[.root, .key (.name "a"), .key (.index 1)], .bool true⟩] := by
  intro body script outer document
  have compiled : compile "$.a" .default = .ok outer :=
    compile_eq_ok_iff.mpr ⟨_, _, by rfl, by rfl, rfl⟩
  have script_compiled : Script.compile body = .ok script :=
    Script.compile_eq_ok_iff.mpr ⟨rfl, by decide +kernel⟩
  have trimmed : Text.trim body.toList = body.toList := by decide +kernel
  obtain ⟨candidates, filtered, _, children, filter, _, kept, -⟩ :=
    records_scripts compiled script_compiled trimmed document none
  refine ⟨compiled, script_compiled, trimmed, filtered, filter, ?_⟩
  let all := assemble ("$.a" ++ "[*]") [.root, .property (.name "a"), .wildcard] .default
    [.property (.name "a"), .wildcard]
  have same : candidates = all := Except.ok.inj
    (children.symm.trans (compile_eq_ok_iff.mpr ⟨_, _, by rfl, by rfl, rfl⟩))
  have found : all.records document none = .ok
      [⟨[.root, .key (.name "a"), .key (.index 0)], .null⟩,
        ⟨[.root, .key (.name "a"), .key (.index 1)], .bool true⟩] := by
    rw [records_eq_recordsByHistory]
    rfl
  rw [kept _ (same ▸ found)]
  rfl

end Program

end TreePath
