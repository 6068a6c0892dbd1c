/-
# Lookup — programs that look for one child of the document

A name in brackets, a script and a sub-path each look up children of a node under keys, which they come by in
their own ways.  At the root, whatever gives one key finds the child under it: `childMatch` is what is
found, and there is a lemma for each of the three kinds of operation.

Keys that are written the same find the same child, at the same path (`findSame_of_located`).  `FindSame` is
the relation between programs that is meant: neither finds anything, or both find the same node, with its
value, its site and its path.

The modules on literals and on computed keys use this for different ways to come by a key.
-/
import TreePath.Proofs.Path.Canonical
import TreePath.Proofs.Program.SubPath
import TreePath.Proofs.Script.Embedding
import TreePath.Proofs.Trail.Places

namespace TreePath

namespace Key

theorem position?_eq_of_text {k k' : Key} (fits : k.Fits) (fits' : k'.Fits)
    (same : k.text = k'.text) (value : Json) : k.position? value = k'.position? value := by
  have canonical : k.canonical = k'.canonical := by rw [Key.canonical, Key.canonical, same]
  rw [← position?_canonical fits, canonical, position?_canonical fits']

theorem fragment_eq_of_text {k k' : Key} (fits : k.Fits) (fits' : k'.Fits)
    (same : k.text = k'.text) : (Label.key k).fragment = (Label.key k').fragment := by
  have canonical : k.canonical = k'.canonical := by rw [Key.canonical, Key.canonical, same]
  rw [← fragment_canonical fits, canonical, fragment_canonical fits']

end Key

theorem Step.parse_parenthesized {body : List Char} (balanced : Quote.Balanced body)
    (trimmed : Text.Trimmed body) :
    parse ("$[(" ++ String.ofList body ++ ")]") = .ok [.root, .script (String.ofList body)] := by
  have text : "$[(" ++ String.ofList body ++ ")]" =
      String.ofList ('$' :: '[' :: ('(' :: (body ++ [')']) ++ [']'])) := by
    rw [← String.toList_inj]
    simp
  have classified := Subscript.classify_script balanced
  rw [Text.trim_eq_self trimmed] at classified
  rw [text]
  exact parse_bracket (Quote.balanced_parenthesized balanced) classified

namespace Program

open Trace

theorem compile_single {expression : String} {options : Options} {step : Step} {op : Op}
    (parsed : Step.parse expression = .ok [.root, step]) (ne : step ≠ .root)
    (compiled : Op.compile options step = .ok op) :
    compile expression options = .ok (assemble expression [.root, step] options [op]) := by
  refine compile_eq_ok_iff.mpr ⟨_, _, parsed, ?_, rfl⟩
  rw [Step.lower_root, Step.lower, List.filter_cons_of_pos (by simpa using ne), List.filter_nil]
  exact mapM_cons_eq_ok_iff.mpr ⟨op, [], compiled, rfl, rfl⟩

variable (document : Json) (context : Option Registry)

def rootTrail : Trail :=
  ⟨#[⟨.ofDocument document, .root, none⟩], #[]⟩

/-- The child of the document under a key as a match with its site, if there is one. -/
def childMatch (key : Key) : List (Match × Site) :=
  (((Node.ofDocument document).child? key).map fun child =>
    (⟨[.root, .key key], child.value⟩, child.site)).toList

/-- An operation that goes on with the child under a key finds that child. -/
theorem located_assemble {op : Op} {key : Key}
    (runs : ∀ next, op.run document context next ⟨some 0, 1⟩ (rootTrail document) =
      follow next (.ofDocument document) ⟨some 0, 1⟩ (rootTrail document) key)
    (source : String) (steps : List Step) (options : Options) :
    (assemble source steps options [op]).located document context =
      .ok (childMatch document key) := by
  show (op.run document context (runCode document context [instruction _ _ .emit]) ⟨some 0, 1⟩
    (rootTrail document) >>= fun t => Except.ok t.located) = _
  rw [runs, follow, childMatch]
  cases (Node.ofDocument document).child? key with
  | none => rfl
  | some child =>
      let t : Trail := ⟨(rootTrail document).frames.push ⟨child, .key key, some 0⟩, #[1]⟩
      have labels : t.labels ⟨some 1, 0⟩ = [.root, .key key] := by
        simp [t, Trail.labels, Trail.chain, Trail.chainFrom, rootTrail]
      show Except.ok t.located = _
      rw [Trail.located]
      show Except.ok [((⟨t.labels ⟨some 1, 0⟩, child.value⟩ : Match), child.site)] = _
      rw [labels]
      rfl

/-! ## Operations that look up one key -/

section runs

variable {document : Json} {context : Option Registry}

theorem located_property (key : Key) (source : String) (steps : List Step) (options : Options) :
    (assemble source steps options [.property key]).located document context =
      .ok (childMatch document key) :=
  located_assemble document context (fun _ => rfl) source steps options

theorem located_script {script : Script} {key : Key}
    (selects : ∀ path, script.key document path = .ok key) (source : String) (steps : List Step)
    (options : Options) :
    (assemble source steps options [.script script]).located document context =
      .ok (childMatch document key) := by
  refine located_assemble document context ?_ source steps options
  intro next
  show (script.key document _ >>= fun key =>
    follow next (.ofDocument document) ⟨some 0, 1⟩ (rootTrail document) key) = _
  rw [selects]
  rfl

theorem located_subPath {nested : Program} {records : List Match} {key : Key}
    (found : nested.records document context = .ok records) (one : keysOf records = [key])
    (source : String) (steps : List Step) (options : Options) :
    (assemble source steps options [.subPath nested]).located document context =
      .ok (childMatch document key) := by
  refine located_assemble document context ?_ source steps options
  intro next
  show (nested.records document context >>= fun records =>
    fanOut next ⟨some 0, 1⟩ (rootTrail document)
      (Trace.select (.ofDocument document) (keysOf records))) = _
  rw [found]
  show fanOut next ⟨some 0, 1⟩ (rootTrail document)
    (Trace.select (.ofDocument document) (keysOf records)) = _
  rw [one, Trace.select, List.filterMap_cons, follow]
  cases (Node.ofDocument document).child? key with
  | none => rfl
  | some child =>
      show (proceed next ⟨some 0, 1⟩ (rootTrail document) (.key key) child >>= pure) =
        proceed next ⟨some 0, 1⟩ (rootTrail document) (.key key) child
      cases proceed next ⟨some 0, 1⟩ (rootTrail document) (.key key) child <;> rfl

end runs

/-! ## The same child under two keys -/

/-- Neither program finds anything, or both find the same node: its value, its site and its path are the
same, and each program found it under its own key. -/
def FindSame (program program' : Program) (key key' : Key) : Prop :=
  (program.records document context = .ok [] ∧ program'.records document context = .ok []) ∨
  ∃ child site,
    let m : Match := ⟨[.root, .key key], child⟩
    let m' : Match := ⟨[.root, .key key'], child⟩
    program.records document context = .ok [m] ∧ program'.records document context = .ok [m'] ∧
      program.located document context = .ok [(m, site)] ∧
      program'.located document context = .ok [(m', site)] ∧ m.path = m'.path

variable {document : Json} {context : Option Registry}

theorem findSame_of_located {program program' : Program} {key key' : Key}
    (found : program.located document context = .ok (childMatch document key))
    (found' : program'.located document context = .ok (childMatch document key'))
    (fits : key.Fits) (fits' : key'.Fits) (same : key.text = key'.text) :
    FindSame document context program program' key key' := by
  have child : (Node.ofDocument document).child? key = (Node.ofDocument document).child? key' := by
    rw [Node.child?, Node.child?, Key.position?_eq_of_text fits fits' same]
  have records := map_located document context program
  have records' := map_located document context program'
  rw [found] at records
  rw [found'] at records'
  rw [childMatch] at found found' records records'
  rw [child] at found records
  cases under : (Node.ofDocument document).child? key' with
  | none =>
      rw [under] at records records'
      exact .inl ⟨records.symm, records'.symm⟩
  | some child =>
      rw [under] at found found' records records'
      refine .inr ⟨child.value, child.site, records.symm, records'.symm, found, found', ?_⟩
      show String.join ["$", (Label.key key).fragment] = String.join ["$", (Label.key key').fragment]
      rw [Key.fragment_eq_of_text fits fits' same]

end Program

end TreePath
