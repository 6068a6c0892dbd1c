/-
# Successors — what one step of a branch can be

A successor of a branch is the root alone, the branch with children on top, the branch without its newest
entry, or the branch with the result of a call on top.  `Op.Successor` has these four, and
`Op.successor_of_mem` says that every successor of every operation is one.

What holds of every branch of a run is proved for each of them once, and then by induction on the run.  The
modules on replaying, on regular branches and on steps back all go this way.

Children are put on a branch one or several at a time: a descent puts a node and all that is between.
`History.Below` is a branch with children on top, each listed in the value below it, and is transitive.
-/
import TreePath.Proofs.Results
import TreePath.Proofs.Trail.Refinement

namespace TreePath

/-- A history with children on top, each listed in the value below it. -/
inductive History.Below (document : Json) (h : History) : History → Prop
  | here : History.Below document h h
  | child {h' : History} {key : Key} {child : Json} : History.Below document h h' →
      (key, child) ∈ (h'.value document).children →
      History.Below document h ((.key key, child) :: h')

/-- The keys that an operation selects by at a value. -/
inductive Op.Chooses (document : Json) (context : Option Registry) (owner : Json) : Op → Key → Prop
  | property {key : Key} : Op.Chooses document context owner (.property key) key
  | properties {keys : List Key} {key : Key} : key ∈ keys →
      Op.Chooses document context owner (.properties keys) key
  | slice {s : Slice} {key : Key} : key ∈ Trace.sliceKeys s owner →
      Op.Chooses document context owner (.slice s) key
  | script {script : Script} {path : Option String} {key : Key} :
      script.key owner path = .ok key → Op.Chooses document context owner (.script script) key
  | subPath {nested : Program} {records : List Match} {key : Key} :
      nested.recordsByHistory document context = .ok records → key ∈ Trace.keysOf records →
      Op.Chooses document context owner (.subPath nested) key

/-- One step of a branch. -/
inductive Op.Successor (document : Json) (context : Option Registry) (op : Op) (h : History) :
    History → Prop
  | start : op = .start → Op.Successor document context op h [(.root, document)]
  | chosen {key : Key} {child : Json} : Op.Chooses document context (h.value document) op key →
      key.child? (h.value document) = some child →
      Op.Successor document context op h ((.key key, child) :: h)
  | below {h' : History} : h.Below document h' → Op.Successor document context op h h'
  | up {newest : Label × Json} {h' : History} : h = newest :: h' → h' ≠ [] →
      Op.Successor document context op h h'
  | call {name : String} {bound : Option Func} {f : Func} {value : Json} :
      op = .function name bound → Trace.resolve context name bound = .ok f →
      f.apply (h.value document) = .ok value →
      Op.Successor document context op h ((.call (name ++ "()"), value) :: h)

theorem Op.Successor.ne_nil {document : Json} {context : Option Registry} {op : Op} {h h' : History}
    (step : op.Successor document context h h') (start : h ≠ []) : h' ≠ [] := by
  cases step with
  | start _ => simp
  | chosen _ _ => simp
  | below below =>
      cases below with
      | here => exact start
      | child _ _ => simp
  | up _ more => exact more
  | call _ _ _ => simp

namespace History

variable {document : Json}

theorem Below.trans {h h' h'' : History} (first : Below document h h')
    (second : Below document h' h'') : Below document h h'' := by
  induction second with
  | here => exact first
  | child _ listed ih => exact .child ih listed

theorem mem_select {h h' : History} {owner : Json} {keys : List Key}
    (mem : h' ∈ h.select owner keys) :
    ∃ key ∈ keys, ∃ child, key.child? owner = some child ∧ h' = (.key key, child) :: h := by
  obtain ⟨key, key_mem, found⟩ := List.mem_filterMap.mp mem
  obtain ⟨child, named, rfl⟩ := Option.map_eq_some_iff.mp found
  exact ⟨key, key_mem, child, named, rfl⟩

theorem below_of_mem_children {h h' : History} (mem : h' ∈ h.children (h.value document)) :
    Below document h h' := by
  obtain ⟨⟨key, child⟩, listed, rfl⟩ := List.mem_map.mp mem
  exact .child .here listed

theorem sizeOf_child_lt {value child : Json} {key : Key} (listed : (key, child) ∈ value.children) :
    sizeOf child < sizeOf value := by
  obtain ⟨position, found⟩ := List.mem_iff_getElem?.mp listed
  exact Json.sizeOf_childAt?_lt (Json.childAt?_of_children found)

theorem below_of_mem_containers {h h' : History} {value : Json}
    (current : h.value document = value) (mem : h' ∈ h.containers value) :
    Below document h h' := by
  induction size : sizeOf value using Nat.strongRecOn generalizing h value with
  | _ size ih =>
      subst size
      rw [containers_eq] at mem
      rcases List.mem_cons.mp mem with rfl | mem
      · exact .here
      · obtain ⟨⟨key, child⟩, listed, mem⟩ := List.mem_flatMap.mp mem
        rw [containersIn] at mem
        split at mem
        · have first : Below document h ((.key key, child) :: h) :=
            .child .here (current ▸ listed)
          exact first.trans (ih _ (sizeOf_child_lt listed) rfl mem rfl)
        · cases mem

theorem sublist_of_survivors {script : Script} {candidates kept : List History}
    (found : survivors script document candidates = .ok kept) : kept.Sublist candidates := by
  induction candidates generalizing kept with
  | nil =>
      cases found
      exact .slnil
  | cons first rest ih =>
      obtain ⟨holds, _, found⟩ := bind_eq_ok_iff.mp found
      obtain ⟨others, rest_found, found⟩ := bind_eq_ok_iff.mp found
      cases found
      split
      · exact (ih rest_found).cons_cons first
      · exact (ih rest_found).cons first

theorem mem_of_survivors {script : Script} {candidates kept : List History} {h : History}
    (found : survivors script document candidates = .ok kept) (mem : h ∈ kept) :
    h ∈ candidates :=
  (sublist_of_survivors found).subset mem

end History

theorem Op.successor_of_mem {document : Json} {context : Option Registry} {op : Op} {h : History}
    {successors : List History} (found : op.successors document context h = .ok successors)
    {h' : History} (mem : h' ∈ successors) : op.Successor document context h h' := by
  have chosen : ∀ {keys : List Key}, h' ∈ h.select (h.value document) keys →
      (∀ key ∈ keys, Op.Chooses document context (h.value document) op key) →
      op.Successor document context h h' := by
    intro keys mem chooses
    obtain ⟨key, key_mem, child, named, rfl⟩ := History.mem_select mem
    exact .chosen (chooses key key_mem) named
  cases op with
  | start =>
      cases found
      rw [List.mem_singleton.mp mem]
      exact .start rfl
  | emit =>
      cases found
      cases mem
  | property key =>
      cases found
      refine chosen mem ?_
      intro key' key_mem
      rw [List.mem_singleton.mp key_mem]
      exact .property
  | wildcard =>
      cases found
      exact .below (History.below_of_mem_children mem)
  | descent =>
      cases found
      exact .below (History.below_of_mem_containers rfl mem)
  | parent =>
      rw [Op.successors_parent] at found
      cases found
      split at mem
      · cases mem
      · rename_i more
        rw [List.mem_singleton.mp mem]
        cases h with
        | nil => exact absurd rfl more
        | cons newest rest => exact .up rfl (by simpa using more)
  | properties keys =>
      cases found
      exact chosen mem fun _ => .properties
  | slice s =>
      cases found
      exact chosen mem fun _ => .slice
  | script script =>
      obtain ⟨key, evaluated, found⟩ := bind_eq_ok_iff.mp found
      cases found
      refine chosen mem ?_
      intro key' key_mem
      rw [List.mem_singleton.mp key_mem]
      exact .script evaluated
  | filter script => exact .below (History.below_of_mem_children (History.mem_of_survivors found mem))
  | function name bound =>
      obtain ⟨f, resolved, found⟩ := bind_eq_ok_iff.mp found
      obtain ⟨value, applied, found⟩ := bind_eq_ok_iff.mp found
      cases found
      rw [List.mem_singleton.mp mem]
      exact .call rfl resolved applied
  | subPath nested =>
      obtain ⟨records, nested_found, found⟩ := bind_eq_ok_iff.mp found
      cases found
      exact chosen mem fun _ => .subPath nested_found

end TreePath
