/-
# Faults — where the fault of a run comes from

Scripts, filters, calls and the programs of sub-paths can fail at a branch.  No other operation can: a key
that finds nothing, a slice of an object or the parent of the root leave nothing to go on with, which is no
fault.

So an operation that does not fail itself ends in a fault only if a branch that it goes on with does
(`Op.failsWith_or_relays`), and a run ends in a fault exactly if it comes to an operation that fails with it:
`records_eq_error_iff`.

`Trace.Relays` is the form of all operations that pass faults on: a result, a call of what goes on, or one
such run after another.  That form is what descent and the choice among several children have in common, so
the argument about faults is made once, by induction on it (`exists_goesOn`).
-/
import TreePath.Proofs.Trail.Standing

namespace TreePath

open Trace

/-! ## Runs that only pass faults on -/

/-- A way of going on that has every result of another one. -/
def Trace.Extends (next' next : Next) : Prop :=
  ∀ (c : Cursor) (t t' : Trail), next c t = .ok t' → next' c t = .ok t'

/-- A run has no fault of its own: it ends with a result, or in the fault of a branch that it goes on
with.  Up to there it depends on the results of going on alone. -/
inductive Trace.Relays (run : Next → Except Fault Trail) (next : Next) : Prop
  | ok (t : Trail) : (∀ next', Extends next' next → run next' = .ok t) → Trace.Relays run next
  | error (c : Cursor) (t : Trail) (fault : Fault) : next c t = .error fault →
      (∀ next' fault', Extends next' next → next' c t = .error fault' →
        run next' = .error fault') → Trace.Relays run next

namespace Trace.Relays

variable {run : Next → Except Fault Trail} {next : Next}

theorem result (t : Trail) : Relays (fun _ => .ok t) next :=
  .ok t fun _ _ => rfl

theorem call (c : Cursor) (t : Trail) : Relays (fun next => next c t) next := by
  cases ran : next c t with
  | ok t' => exact .ok t' fun next' extends' => extends' c t t' ran
  | error fault => exact .error c t fault ran fun _ _ _ failed => failed

theorem bind {run' : Trail → Next → Except Fault Trail} (first : Relays run next)
    (others : ∀ t, Relays (run' t) next) :
    Relays (fun next => run next >>= fun t => run' t next) next := by
  cases first with
  | error c t fault failed passes =>
      refine .error c t fault failed ?_
      intro next' fault' extends' failed'
      rw [passes next' fault' extends' failed']
      rfl
  | ok t ran =>
      cases others t with
      | ok t' ran' =>
          refine .ok t' ?_
          intro next' extends'
          rw [ran next' extends']
          exact ran' next' extends'
      | error c' t' fault failed passes =>
          refine .error c' t' fault failed ?_
          intro next' fault' extends' failed'
          rw [ran next' extends']
          exact passes next' fault' extends' failed'

theorem foldlM {α : Type} {step : Next → Trail → α → Except Fault Trail} {l : List α}
    (each : ∀ a ∈ l, ∀ t, Relays (fun next => step next t a) next) (t : Trail) :
    Relays (fun next => l.foldlM (step next) t) next := by
  induction l generalizing t with
  | nil => exact .result t
  | cons a l ih =>
      simp only [List.foldlM_cons]
      exact (each a List.mem_cons_self t).bind
        (ih fun a mem => each a (List.mem_cons_of_mem _ mem))

theorem fanOut (c : Cursor) (t : Trail) (children : List (Key × Node)) :
    Relays (fun next => Trace.fanOut next c t children) next :=
  foldlM (fun _ _ _ => .call _ _) t

theorem descend (node : Node) (c : Cursor) (t : Trail) :
    Relays (fun next => Trace.descend next node c t) next := by
  induction size : sizeOf node.value using Nat.strongRecOn generalizing node c t with
  | _ size ih =>
      subst size
      simp only [descend_eq]
      refine (Relays.call c.advance t).bind (foldlM ?_)
      intro child mem t
      simp only [descendInto]
      split
      · exact .result t
      · exact ih _ (Node.sizeOf_children_lt mem) child.2 _ _ rfl

/-- A fault of a run that has none of its own is that of a branch that the run goes on with. -/
theorem exists_goesOn (relays : Relays run next) {fault : Fault} (failed : run next = .error fault) :
    ∃ c t, next c t = .error fault ∧ GoesOn run next c t := by
  have same : Extends next next := fun _ _ _ ran => ran
  cases relays with
  | ok t ran =>
      rw [ran next same] at failed
      cases failed
  | error c t fault' failed' passes =>
      rw [passes next fault' same failed'] at failed
      cases failed
      refine ⟨c, t, failed', ?_⟩
      intro fault'' next' planted others
      refine passes next' fault'' ?_ planted
      intro c' t' t'' ran
      rw [others c' t' ?_]
      · exact ran
      · rintro ⟨rfl, rfl⟩
        rw [failed'] at ran
        cases ran

end Trace.Relays

/-! ## Operations that fail -/

section
variable (document : Json) (context : Option Registry)

def Op.FailsWith (c : Cursor) (t : Trail) (fault : Fault) : Op → Prop
  | .script s =>
    s.key (t.current document c).value (if s.usesPath then some (t.path c []) else none) =
      .error fault
  | .filter s => survivors s t c (t.current document c).children = .error fault
  | .function name bound =>
    resolve context name bound >>= (fun f => f.apply (t.current document c).value) = .error fault
  | .subPath nested => nested.records document context = .error fault
  | _ => False

end

variable {document : Json} {context : Option Registry} {c : Cursor} {t : Trail} {fault : Fault}

theorem Op.FailsWith.run_eq {op : Op} (fails : FailsWith document context c t fault op)
    (next : Next) : op.run document context next c t = .error fault := by
  cases op with
  | script s =>
      have failed : s.key (t.current document c).value _ = .error fault := fails
      show s.key (t.current document c).value _ >>= _ = _
      rw [failed]
      rfl
  | filter s =>
      have failed : survivors s t c (t.current document c).children = .error fault := fails
      show survivors s t c (t.current document c).children >>= _ = _
      rw [failed]
      rfl
  | function name bound =>
      have failed : resolve context name bound >>=
        (fun f => f.apply (t.current document c).value) = .error fault := fails
      show resolve context name bound >>= (fun f => f.apply (t.current document c).value >>= _) = _
      rw [← bind_assoc, failed]
      rfl
  | subPath nested =>
      have failed : nested.records document context = .error fault := fails
      show nested.records document context >>= _ = _
      rw [failed]
      rfl
  | _ => cases fails

theorem Op.failsWith_or_relays (op : Op) (next : Next) (c : Cursor) (t : Trail) :
    (∃ fault, FailsWith document context c t fault op) ∨
      Relays (fun next => op.run document context next c t) next := by
  let node := t.current document c
  have followed : ∀ key, Relays (fun next => follow next node c t key) next := by
    intro key
    simp only [follow_eq_fanOut]
    exact .fanOut c t _
  cases op with
  | start => exact .inr (.call _ _)
  | emit => exact .inr (.result _)
  | property key => exact .inr (followed key)
  | wildcard => exact .inr (.fanOut c t _)
  | descent => exact .inr (.descend node c t)
  | parent =>
      refine .inr ?_
      simp only [Op.run]
      cases t.parent? c with
      | none => exact .result t
      | some above => exact .call _ t
  | properties keys => exact .inr (.fanOut c t _)
  | slice s => exact .inr (.fanOut c t _)
  | script s =>
      cases evaluated : s.key node.value (if s.usesPath then some (t.path c []) else none) with
      | error fault => exact .inl ⟨fault, evaluated⟩
      | ok key =>
          refine .inr ?_
          show Relays (fun next => s.key node.value _ >>= follow next node c t) next
          rw [evaluated]
          exact followed key
  | filter s =>
      cases evaluated : survivors s t c node.children with
      | error fault => exact .inl ⟨fault, evaluated⟩
      | ok kept =>
          refine .inr ?_
          show Relays (fun next => survivors s t c node.children >>= fanOut next c t) next
          rw [evaluated]
          exact .fanOut c t kept
  | function name bound =>
      cases called : resolve context name bound >>= fun f => f.apply node.value with
      | error fault => exact .inl ⟨fault, called⟩
      | ok value =>
          refine .inr ?_
          show Relays (fun next => resolve context name bound >>= fun f => f.apply node.value >>=
            fun value => proceed next c t (.call (name ++ "()")) (.ofResult t.frames.size value)) next
          simp only [← bind_assoc, called]
          exact .call _ _
  | subPath nested =>
      cases found : nested.records document context with
      | error fault => exact .inl ⟨fault, found⟩
      | ok records =>
          refine .inr ?_
          show Relays (fun next => nested.records document context >>= fun records =>
            fanOut next c t (select node (keysOf records))) next
          rw [found]
          exact .fanOut c t _

/-! ## Runs that fail -/

namespace Program

variable {code : List Instruction}

theorem Reached.error_of_runAt (reached : Reached document context code (.trace c t))
    (failed : runAt document context code c t = .error fault) :
    runAt document context code .start .empty = .error fault := by
  generalize visit : Visit.trace c t = v at reached
  induction reached generalizing c t with
  | start =>
      cases visit
      exact failed
  | next _ found goesOn ih =>
      cases visit
      refine ih ?_ rfl
      rw [runAt_eq, found]
      exact goesOn fault _ failed fun _ _ _ => rfl
  | descend => cases visit
  | child => cases visit
  | into => cases visit

/-- A fault of what is left to run at a branch that a run comes to is one with which an operation fails
that the run comes to from there. -/
theorem Reached.exists_failsWith (framed : Framed code)
    (reached : Reached document context code (.trace c t))
    (failed : runAt document context code c t = .error fault) :
    ∃ c' t' i, Reached document context code (.trace c' t') ∧ code[c'.step]? = some i ∧
      Op.FailsWith document context c' t' fault i.op := by
  -- every instruction goes on one step further, so what is left of the program gets shorter
  induction left : code.length - c.step generalizing c t with
  | zero =>
      rw [runAt_eq, List.getElem?_eq_none (by omega)] at failed
      cases failed
  | succ n ih =>
      have alive : Alive document code c t := reached.holds framed
      obtain ⟨⟨op, flags⟩, found⟩ : ∃ i, code[c.step]? = some i :=
        ⟨_, List.getElem?_eq_getElem alive.step⟩
      rw [runAt_eq, found] at failed
      rcases op.failsWith_or_relays (runAt document context code) c t with ⟨fault', fails⟩ | relays
      · have same := (fails.run_eq _).symm.trans failed
        cases same
        exact ⟨c, t, _, reached, found, fails⟩
      · obtain ⟨c', t', failed', goesOn⟩ := relays.exists_goesOn failed
        obtain ⟨-, -, -, step⟩ :=
          goesOn.begun alive.sound alive.within (alive.start_or_begun framed found)
        exact ih (reached.next found goesOn) failed' (by omega)

theorem records_eq_error_iff {program : Program} (framed : Framed program.code) :
    program.records document context = .error fault ↔
      ∃ c t i, Reached document context program.code (.trace c t) ∧
        program.code[c.step]? = some i ∧ Op.FailsWith document context c t fault i.op := by
  have run_eq : program.records document context = .error fault ↔
      runAt document context program.code .start .empty = .error fault := by
    rw [records_eq_runAt]
    cases runAt document context program.code .start .empty <;> simp [Except.map]
  rw [run_eq]
  constructor
  · intro failed
    exact Reached.start.exists_failsWith framed failed
  · rintro ⟨c, t, ⟨op, flags⟩, reached, found, fails⟩
    refine reached.error_of_runAt ?_
    rw [runAt_eq, found]
    exact fails.run_eq _

end Program

end TreePath
