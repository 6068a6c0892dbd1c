/-
# Regular — the branches of a compiled path in a proper document

Theorems about canonical paths need to know of a match that its positions have numerals and that its values
are proper.  Both hold of every branch of a compiled path in a proper document, if the functions give proper
values for proper values (`Func.Proper`).

`History.Regular` is the invariant.  A branch begins at the root and goes on with keys and calls, its values
are proper and its positions fit.  An operation that keeps it is `Op.Tame`, and `Op.Compiles.tame` shows this
of what a step is compiled to: keys that were read fit, and keys that were computed fit where they lead to
something.

Sub-paths matter here only by the keys they give, and those come from the matches of a shorter expression.  So
`Program.regular_of_compile` is an induction on the length of the expression.
-/
import TreePath.Proofs.Json.Places
import TreePath.Proofs.Path.Canonical
import TreePath.Proofs.Program.Compiled
import TreePath.Proofs.Trail.Locality

namespace TreePath

/-- A function gives proper values for proper values. -/
def Func.Proper (f : Func) : Prop :=
  ∀ value result, value.Proper → f.apply value = .ok result → result.Proper

def Registry.Proper (functions : Registry) : Prop :=
  ∀ name f, functions.find? name = some f → f.Proper

theorem Key.fits_of_item {items : List Json} (h : (Json.arr items).Proper) {key : Key}
    {position : Nat} (named : key.position? (.arr items) = some position) : key.Fits := by
  cases key with
  | name _ => trivial
  | index i =>
      have : Option.filter (· < items.length) (some i) = some position := named
      obtain ⟨index, inside⟩ := Option.filter_eq_some_iff.mp this
      cases index
      exact Nat.lt_of_lt_of_le (of_decide_eq_true inside) h.1

theorem Key.fits_of_ofScalar? {value : Json} (h : value.Proper) {key : Key}
    (found : ofScalar? value = some key) : key.Fits := by
  simp only [ofScalar?] at found
  split at found
  · cases found
    trivial
  · cases found
    trivial
  · rename_i n
    cases found
    split
    · have := h.2
      show n.toNat < positionBound
      have bound : Number.integerBound = 2 ^ 64 := rfl
      have bound' : positionBound = 2 ^ 64 := rfl
      omega
    · trivial
  · cases found
    trivial
  · cases found
    trivial
  · cases found
  · cases found

theorem Key.fits_of_mem_keysOf {records : List Match} (h : ∀ m ∈ records, m.value.Proper)
    {key : Key} (mem : key ∈ Trace.keysOf records) : key.Fits := by
  obtain ⟨m, m_mem, mem⟩ := List.mem_flatMap.mp mem
  have proper := h m m_mem
  split at mem
  · rename_i items eq
    rw [eq] at proper
    obtain ⟨item, item_mem, found⟩ := List.mem_filterMap.mp mem
    exact fits_of_ofScalar? (Json.proper_of_mem_items proper.2 item_mem) found
  · exact fits_of_ofScalar? proper (Option.mem_toList.mp mem)

theorem Script.fits_of_operandKey? {operand : Operand} {key : Key}
    (selected : operandKey? operand = some key) : key.Fits := by
  simp only [operandKey?] at selected
  split at selected
  · cases selected
    rw [numberKey]
    split
    · split
      · rename_i n _ bounds
        have bound : indexBound = 2 ^ 53 := rfl
        have bound' : Key.positionBound = 2 ^ 64 := rfl
        show n.toNat < Key.positionBound
        omega
      · trivial
    · trivial
  · cases selected
  · cases selected
    exact Key.fits_ofBare _

theorem Script.fits_of_key {script : Script} {value : Json} {path : Option String} {key : Key}
    (h : script.key value path = .ok key) : key.Fits := by
  obtain ⟨operand, _, h⟩ := bind_eq_ok_iff.mp h
  split at h
  · rename_i selected
    cases h
    exact fits_of_operandKey? selected
  · cases h

/-- A branch of a proper document. -/
inductive History.Regular (document : Json) : History → Prop
  | root : History.Regular document [(.root, document)]
  | key {h : History} {key : Key} {child : Json} : History.Regular document h → key.Fits →
      child.Proper → History.Regular document ((.key key, child) :: h)
  | call {h : History} {text : String} {value : Json} : History.Regular document h →
      value.Proper → History.Regular document ((.call text, value) :: h)

/-- An operation whose keys fit where they lead to something, and whose calls give proper values. -/
structure Op.Tame (document : Json) (context : Option Registry) (op : Op) : Prop where
  keys : ∀ owner key child, owner.Proper → Op.Chooses document context owner op key →
    key.child? owner = some child → key.Fits
  calls : ∀ name bound f, op = .function name bound → Trace.resolve context name bound = .ok f →
    f.Proper

section

variable {document : Json} {context : Option Registry}

theorem History.Regular.value {h : History} (regular : h.Regular document)
    (proper : document.Proper) : (h.value document).Proper := by
  cases regular with
  | root => exact proper
  | key _ _ child => exact child
  | call _ value => exact value

theorem Json.Proper.fits_of_listed {value child : Json} (h : value.Proper) {key : Key}
    (listed : (key, child) ∈ value.children) : key.Fits ∧ child.Proper := by
  obtain ⟨position, found⟩ := List.mem_iff_getElem?.mp listed
  refine ⟨?_, h.childAt? (Json.childAt?_of_children found)⟩
  have named := h.position?_of_listed found
  simp only [Json.children] at listed
  split at listed
  · obtain ⟨_, _, eq⟩ := List.mem_map.mp listed
    cases eq
    exact Key.fits_of_item h named
  · obtain ⟨_, _, eq⟩ := List.mem_map.mp listed
    cases eq
    trivial
  · cases listed

theorem History.Below.regular {h h' : History} (below : h.Below document h')
    (regular : h.Regular document) (proper : document.Proper) : h'.Regular document := by
  induction below with
  | here => exact regular
  | child _ listed ih =>
      obtain ⟨fits, child⟩ := (ih.value proper).fits_of_listed listed
      exact .key ih fits child

/-- A step of a tame operation keeps a branch regular. -/
theorem Op.Successor.regular {op : Op} {h h' : History}
    (step : op.Successor document context h h') (tame : op.Tame document context)
    (regular : h.Regular document) (proper : document.Proper) : h'.Regular document := by
  have value := regular.value proper
  cases step with
  | start _ => exact .root
  | chosen chooses named => exact .key regular (tame.keys _ _ _ value chooses named) (value.child? named)
  | below below => exact below.regular regular proper
  | up eq more =>
      subst eq
      cases regular with
      | root => exact absurd rfl more
      | key rest _ _ => exact rest
      | call rest _ => exact rest
  | call eq resolved applied => exact .call regular (tame.calls _ _ _ eq resolved _ _ value applied)

/-! ## Compiled paths -/

variable {options : Options}
  (context_proper : ∀ functions, context = some functions → functions.Proper)

include context_proper

theorem Op.Compiles.tame {step : Step} {op : Op} (h : Op.Compiles options step op)
    (options_proper : options.functions.Proper) (fits : step.KeysFit)
    (nested : ∀ text program, step = .subPath text →
      Program.compile text options.nested = .ok program →
      ∀ records, program.records document context = .ok records →
        ∀ m ∈ records, m.value.Proper) : op.Tame document context := by
  constructor
  · intro owner key child proper chooses named
    cases chooses with
    | property => cases h with | property => exact fits
    | properties mem => cases h with | propertyList => exact fits key mem
    | slice mem =>
        simp only [Trace.sliceKeys] at mem
        split at mem
        · obtain ⟨_, named, _⟩ := Option.bind_eq_some_iff.mp named
          exact Key.fits_of_item proper named
        · cases mem
    | script selected => exact Script.fits_of_key selected
    | subPath found mem =>
        cases h with
        | subPath compiled =>
            rw [← Program.records_eq_recordsByHistory] at found
            exact Key.fits_of_mem_keysOf (nested _ _ rfl compiled _ found) mem
  · intro name bound f eq resolved
    subst eq
    cases h with
    | function =>
        rw [Trace.resolve] at resolved
        split at resolved
        · rename_i g found
          cases resolved
          rcases Option.or_eq_some_iff.mp found with found | ⟨_, found⟩
          · exact options_proper _ _ found
          · obtain ⟨functions, given, found⟩ := Option.bind_eq_some_iff.mp found
            exact context_proper functions given _ _ found
        · cases resolved

theorem Program.regular_of_compile (document_proper : document.Proper) {expression : String}
    {program : Program} (compiled : compile expression options = .ok program)
    (options_proper : options.functions.Proper) {records : List Match}
    (found : program.records document context = .ok records) :
    ∀ m ∈ records, ∃ h : History, h.Regular document ∧ m = ⟨h.labels, h.value document⟩ := by
  induction size : expression.toList.length using Nat.strongRecOn
    generalizing expression options program records with
  | _ size ih =>
      subst size
      obtain ⟨steps, ops, parsed, lowered, rfl⟩ := compile_eq_ok_iff.mp compiled
      obtain ⟨hs, reached, _, rfl⟩ := reached_of_records (Step.plain_of_lower lowered) found
      have tame : ∀ op ∈ ops, op.Tame document context := by
        intro op mem
        obtain ⟨step, step_mem, _, compiles⟩ := Step.exists_of_mem_lower lowered mem
        refine compiles.tame context_proper options_proper
          (Step.keysFit_of_parse parsed step step_mem) ?_
        intro text nested eq compiled records found m mem
        subst eq
        obtain ⟨h, regular, rfl⟩ :=
          ih _ (Step.length_subPath_lt parsed step_mem) compiled options_proper found rfl m mem
        exact regular.value document_proper
      have regular : ∀ h ∈ hs, h.Regular document :=
        reached_induction (fun op mem h h' regular step =>
          step.regular (tame op mem) regular document_proper) .root reached
      intro m mem
      obtain ⟨h, h_mem, rfl⟩ := List.mem_map.mp mem
      exact ⟨h, regular h h_mem, rfl⟩

end

end TreePath
