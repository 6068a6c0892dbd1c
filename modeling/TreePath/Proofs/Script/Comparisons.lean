/-
# Comparisons — what the comparisons of scripts have to do with each other

Loose equality can be described by arms, of which the first that fits two operands either decides or puts a
simpler operand in the place of one of the two and goes on (`looseArm`).  Each move takes a container or a
boolean away, so there are two of them at most, and the answer is that of the definition, which converts both
sides at once: `Settles` has every comparison come to an end, and to one answer (`settles_iff`).

From the definition it can be seen that

* the sides of an equality may be swapped;
* strict equality is the finer one;
* an order read from the right is the opposite order read from the left;
* what cannot be ordered, the undefined number among it, is in no order either way.

`Expr.comparisons_coherent` has these for all operands.  Of numbers only two things are used: their order
from the right is the opposite one, and the number of a boolean equals itself.
-/
import TreePath.Proofs.Script.Reordering

namespace TreePath

/-! ## Numbers -/

namespace Binary64

theorem compare?_swap (x y : Binary64) : y.compare? x = (x.compare? y).map Ordering.swap := by
  cases x with
  | nan => cases y <;> rfl
  | infinite s =>
      cases y with
      | nan => rfl
      | infinite t => cases s <;> cases t <;> rfl
      | finite _ _ => cases s <;> rfl
  | finite s a =>
      cases y with
      | nan => rfl
      | infinite t => cases t <;> rfl
      | finite t b =>
          show some (compare _ _) = some (Ordering.swap (compare _ _))
          exact congrArg some Std.OrientedCmp.eq_swap

theorem equal_comm (x y : Binary64) : x.equal y = y.equal x := by
  rw [equal, equal, compare?_swap x y]
  rcases x.compare? y with _ | (_ | _ | _) <;> rfl

theorem ofNat_ne_nan (n : Nat) : ofNat n ≠ .nan := by
  rw [ofNat, ofQuotient]
  split <;> exact nofun

theorem equal_self {x : Binary64} (defined : x ≠ .nan) : x.equal x = true := by
  cases x with
  | nan => exact absurd rfl defined
  | infinite s => simp [equal, compare?]
  | finite s a => simp [equal, compare?]

end Binary64

namespace Operand

/-! ## Loose equality, arm by arm -/

/-- What an arm of the loose comparison makes of two operands. -/
inductive Verdict where
  | decided (equal : Bool)
  /-- The comparison goes on with two other operands. -/
  | next (a b : Operand)

/-- The arms of the loose comparison; the first that fits is taken. -/
def looseArm (a b : Operand) : Verdict :=
  match a, b with
  | .undefined, .undefined => .decided true
  | .undefined, .null => .decided true
  | .null, .undefined => .decided true
  | .null, .null => .decided true
  | .undefined, _ => .decided false
  | .null, _ => .decided false
  | _, .undefined => .decided false
  | _, .null => .decided false
  | .tree _ _, .tree _ _ => .decided (a.strictEq b)
  | .tree _ _, b => .next a.toPrimitive b
  | a, .tree _ _ => .next a b.toPrimitive
  | .bool _, b => .next (.number a.toNumber) b
  | a, .bool _ => .next a (.number b.toNumber)
  | .number x, .text _ => .decided (x.equal b.toNumber)
  | .text _, .number y => .decided (a.toNumber.equal y)
  | a, b => .decided (a.strictEq b)

/-- The loose comparison of two operands comes to an answer. -/
inductive Settles : Operand → Operand → Bool → Prop
  | decided {a b : Operand} {answer : Bool} : looseArm a b = .decided answer → Settles a b answer
  | next {a b a' b' : Operand} {answer : Bool} : looseArm a b = .next a' b' →
      Settles a' b' answer → Settles a b answer

/-- How many moves it can take until an operand is a number, a text, `undefined` or `null`. -/
def rank : Operand → Nat
  | .bool _ => 1
  | .tree _ _ => 1
  | _ => 0

theorem looseEq_of_decided {a b : Operand} {answer : Bool} (h : looseArm a b = .decided answer) :
    a.looseEq b = answer := by
  cases a with
  | undefined | null => cases b <;> cases h <;> rfl
  | bool _ | number _ | text _ | tree _ _ => cases b <;> first | cases h; rfl | cases h

theorem looseEq_of_next {a b a' b' : Operand} (h : looseArm a b = .next a' b') :
    a.looseEq b = a'.looseEq b' ∧ a'.rank + b'.rank < a.rank + b.rank := by
  cases a with
  | undefined | null => cases b <;> cases h
  | bool _ | number _ | text _ | tree _ _ =>
      cases b <;> first | cases h; exact ⟨rfl, by simp [rank, toPrimitive]⟩ | cases h

theorem settles_looseEq (a b : Operand) : Settles a b (a.looseEq b) := by
  induction moves : a.rank + b.rank using Nat.strongRecOn generalizing a b with
  | ind moves ih =>
      cases arm : looseArm a b with
      | decided answer =>
          rw [looseEq_of_decided arm]
          exact .decided arm
      | next a' b' =>
          obtain ⟨same, fewer⟩ := looseEq_of_next arm
          rw [same]
          exact .next arm (ih _ (moves ▸ fewer) a' b' rfl)

theorem settles_iff {a b : Operand} {answer : Bool} :
    Settles a b answer ↔ a.looseEq b = answer := by
  constructor
  · intro settles
    induction settles with
    | decided arm => exact looseEq_of_decided arm
    | next arm _ ih => exact (looseEq_of_next arm).1.trans ih
  · rintro rfl
    exact settles_looseEq a b

/-! ## Swapped sides -/

theorem strictEq_comm (a b : Operand) : a.strictEq b = b.strictEq a := by
  cases a with
  | undefined | null => cases b <;> rfl
  | number x =>
      cases b with
      | number y => exact x.equal_comm y
      | _ => rfl
  | bool _ | text _ | tree _ _ =>
      cases b with
      | bool _ | text _ | tree _ _ => first | rfl | exact Bool.beq_comm
      | _ => rfl

theorem scalarEq_comm (a b : Operand) : scalarEq a b = scalarEq b a := by
  have strict := strictEq_comm a b
  cases a with
  | number x =>
      cases b with
      | text s => exact x.equal_comm (Script.textNumber s)
      | _ => exact strict
  | text s =>
      cases b with
      | number y => exact (Script.textNumber s).equal_comm y
      | _ => exact strict
  | _ => cases b <;> exact strict

theorem looseEq_comm (a b : Operand) : a.looseEq b = b.looseEq a := by
  have one : ∀ a b : Operand, (∀ place value, a ≠ .tree place value) →
      a.looseEq b = b.looseEq a := by
    intro a b scalar
    rw [looseEq_eq_scalarEq (.inl scalar), looseEq_eq_scalarEq (.inr scalar), Bool.or_comm,
      Bool.and_comm, scalarEq_comm]
  by_cases scalar : ∀ place value, a ≠ .tree place value
  · exact one a b scalar
  by_cases scalar' : ∀ place value, b ≠ .tree place value
  · exact (one b a scalar').symm
  · simp only [ne_eq, not_forall, not_not] at scalar scalar'
    obtain ⟨place, value, rfl⟩ := scalar
    obtain ⟨place', value', rfl⟩ := scalar'
    exact strictEq_comm (.tree place value) (.tree place' value')

theorem looseEq_of_strictEq {a b : Operand} (h : a.strictEq b = true) : a.looseEq b = true := by
  cases a with
  | bool x =>
      cases b with
      | bool y =>
          have same : x = y := eq_of_beq h
          subst same
          exact Binary64.equal_self (Binary64.ofNat_ne_nan x.toNat)
      | _ => cases h
  | undefined | null | number _ | text _ | tree _ _ => cases b <;> first | exact h | cases h

theorem textOrder_swap (s t : String) :
    (if t < s then Ordering.lt else if t = s then .eq else .gt) =
      (if s < t then Ordering.lt else if s = t then .eq else .gt).swap := by
  by_cases below : s < t
  · rw [if_pos below, if_neg (String.lt_asymm below), if_neg (Std.ne_of_lt below).symm]
    rfl
  · rw [if_neg below]
    by_cases same : s = t
    · subst same
      rw [if_neg below, if_pos rfl]
      rfl
    · have above := Std.lt_of_le_of_ne (String.not_lt.mp below) (Ne.symm same)
      rw [if_neg same, if_pos above]
      rfl

theorem compare?_swap (a b : Operand) : b.compare? a = (a.compare? b).map Ordering.swap := by
  have numbers := Binary64.compare?_swap a.toPrimitive.toNumber b.toPrimitive.toNumber
  rw [compare?, compare?]
  cases left : a.toPrimitive with
  | text s =>
      rw [left] at numbers
      cases right : b.toPrimitive with
      | text t => exact congrArg some (textOrder_swap s t)
      | _ =>
          rw [right] at numbers
          exact numbers
  | _ =>
      rw [left] at numbers
      cases right : b.toPrimitive <;> rw [right] at numbers <;> exact numbers

end Operand

/-! ## The comparisons together -/

open Operand

/-- What the comparisons of two operands have to do with each other and with those of the operands
swapped. -/
structure Expr.Coherent (l r : Operand) : Prop where
  /-- The arms of loose equality come to an end, and to the answer of the operator. -/
  settles : ∀ answer, Settles l r answer ↔ combine .eq l r = .bool answer
  eq_comm : combine .eq l r = combine .eq r l
  strictEq_comm : combine .strictEq l r = combine .strictEq r l
  eq_of_strictEq : combine .strictEq l r = .bool true → combine .eq l r = .bool true
  ne : ∀ answer, combine .ne l r = .bool answer ↔ combine .eq l r = .bool !answer
  strictNe : ∀ answer, combine .strictNe l r = .bool answer ↔ combine .strictEq l r = .bool !answer
  lt_swap : combine .lt l r = combine .gt r l
  le_swap : combine .le l r = combine .ge r l
  le_of_lt : combine .lt l r = .bool true → combine .le l r = .bool true
  not_gt_of_lt : combine .lt l r = .bool true → combine .gt l r = .bool false

/-- The comparisons of scripts are coherent for all operands. -/
theorem Expr.comparisons_coherent (l r : Operand) : Coherent l r where
  settles answer := by
    rw [settles_iff, combine, bool.injEq]
  eq_comm := congrArg bool (looseEq_comm l r)
  strictEq_comm := congrArg bool (Operand.strictEq_comm l r)
  eq_of_strictEq same := congrArg bool (looseEq_of_strictEq (bool.inj same))
  ne answer := by
    rw [combine, combine, bool.injEq, bool.injEq]
    exact Bool.not_eq_eq_eq_not
  strictNe answer := by
    rw [combine, combine, bool.injEq, bool.injEq]
    exact Bool.not_eq_eq_eq_not
  lt_swap := by
    rw [combine, combine, compare?_swap l r]
    rcases l.compare? r with _ | (_ | _ | _) <;> rfl
  le_swap := by
    rw [combine, combine, compare?_swap l r]
    rcases l.compare? r with _ | (_ | _ | _) <;> rfl
  le_of_lt below := by
    have below : l.compare? r = some .lt := eq_of_beq (bool.inj below)
    rw [combine, below]
    rfl
  not_gt_of_lt below := by
    have below : l.compare? r = some .lt := eq_of_beq (bool.inj below)
    rw [combine, below]
    rfl

end TreePath
