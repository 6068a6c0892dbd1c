/-
# Reordering — scripts do not see the order of members

A script at twins computes with operands that correspond: the same scalar, or containers that are twins and
stand where the same listed keys lead (`Operand.Twin`).  As a key is listed once, these are the same container
on one side exactly if they are on the other, and that is all that `===` asks of containers.

Every conversion and every operator takes corresponding operands to corresponding ones, or to none on both
sides.  A container becomes a text by its items, or by its kind alone, so no text has the members of an object
in it (`plainText_eq`).

`eval_twin` is the induction over expressions, and the last section has what follows for scripts: they select
the same key, hold of the same candidates, and fail together.
-/
import TreePath.Proofs.Json.Reordering
import TreePath.Proofs.Script.Access

namespace TreePath

variable {root root' : Json}

/-! ## Texts -/

namespace Script

theorem itemTexts_cons (item : Json) (rest : List Json) :
    itemTexts (item :: rest) =
      (if item.kind = .null then "" else plainText item) :: itemTexts rest := by
  cases item <;> rfl

mutual

theorem plainText_eq {value value' : Json} :
    value.Reordered value' → plainText value = plainText value'
  | .scalar _ => rfl
  | .arr items => by rw [plainText, plainText, itemTexts_eq items]
  | .obj _ _ _ => rfl

theorem itemTexts_eq {items items' : List Json} :
    List.Forall₂ Json.Reordered items items' → itemTexts items = itemTexts items'
  | .nil => rfl
  | .cons first rest => by
      have text := plainText_eq first
      have others := itemTexts_eq rest
      rw [itemTexts_cons, itemTexts_cons, first.kind, text, others]

end

end Script

/-! ## Operands -/

/-- Operands that correspond: the same scalar, or twins where the same listed keys lead. -/
inductive Operand.Twin (root root' : Json) : Operand → Operand → Prop
  | scalar {a : Operand} : (∀ place value, a ≠ .tree place value) → Operand.Twin root root' a a
  | tree {place place' : List Nat} {value value' : Json} :
      Json.TwinAt root root' place place' value value' →
      Operand.Twin root root' (.tree place value) (.tree place' value')

namespace Operand

variable {a a' b b' : Operand}

theorem Twin.truthy (h : Twin root root' a a') : a.truthy = a'.truthy := by
  cases h <;> rfl

theorem Twin.isDefined (h : Twin root root' a a') : a.isDefined = a'.isDefined := by
  cases h <;> rfl

theorem Twin.toText (h : Twin root root' a a') : a.toText = a'.toText := by
  cases h with
  | scalar _ => rfl
  | tree both => exact Script.plainText_eq both.twin.reordered

theorem Twin.toNumber (h : Twin root root' a a') : a.toNumber = a'.toNumber := by
  cases h with
  | scalar _ => rfl
  | tree both => exact congrArg Script.textNumber (Script.plainText_eq both.twin.reordered)

theorem Twin.toPrimitive (h : Twin root root' a a') : a.toPrimitive = a'.toPrimitive := by
  cases h with
  | scalar _ => rfl
  | tree both => exact congrArg text (Script.plainText_eq both.twin.reordered)

theorem strictEq_tree (scalar : ∀ place value, a ≠ .tree place value) (place : List Nat)
    (value : Json) : a.strictEq (.tree place value) = false ∧ strictEq (.tree place value) a = false := by
  cases a with
  | tree place value => exact absurd rfl (scalar place value)
  | undefined | null | bool _ | number _ | text _ => exact ⟨rfl, rfl⟩

theorem Twin.strictEq (roots : root.Twin root') (h : Twin root root' a a')
    (h' : Twin root root' b b') : a.strictEq b = a'.strictEq b' := by
  cases h with
  | scalar scalar =>
      cases h' with
      | scalar _ => rfl
      | tree _ => rw [(strictEq_tree scalar _ _).1, (strictEq_tree scalar _ _).1]
  | tree both =>
      cases h' with
      | scalar scalar => rw [(strictEq_tree scalar _ _).2, (strictEq_tree scalar _ _).2]
      | tree others =>
          rw [Bool.eq_iff_iff, Operand.strictEq, Operand.strictEq, beq_iff_eq, beq_iff_eq]
          exact both.place_eq_iff roots others

theorem looseEq_eq_scalarEq (scalar : (∀ place value, a ≠ .tree place value) ∨
      ∀ place value, b ≠ .tree place value) :
    a.looseEq b = (if !a.isDefined || !b.isDefined then !a.isDefined && !b.isDefined
      else scalarEq a.toPrimitive.unboolean b.toPrimitive.unboolean) := by
  rw [looseEq]
  intro place value place' value' isTree isTree'
  rcases scalar with scalar | scalar
  · exact scalar place value isTree
  · exact scalar place' value' isTree'

theorem Twin.looseEq (roots : root.Twin root') (h : Twin root root' a a')
    (h' : Twin root root' b b') : a.looseEq b = a'.looseEq b' := by
  cases h with
  | scalar scalar =>
      rw [looseEq_eq_scalarEq (.inl scalar), looseEq_eq_scalarEq (.inl scalar), h'.toPrimitive,
        h'.isDefined]
  | tree both =>
      have h := Twin.tree both
      cases h' with
      | scalar scalar =>
          rw [looseEq_eq_scalarEq (.inr scalar), looseEq_eq_scalarEq (.inr scalar), h.toPrimitive]
          rfl
      | tree others => exact h.strictEq roots (.tree others)

theorem Twin.compare? (h : Twin root root' a a') (h' : Twin root root' b b') :
    a.compare? b = a'.compare? b' := by
  rw [Operand.compare?, Operand.compare?, h.toPrimitive, h'.toPrimitive]

theorem Twin.plus (h : Twin root root' a a') (h' : Twin root root' b b') :
    a.plus b = a'.plus b' := by
  rw [Operand.plus, Operand.plus, h.toPrimitive, h'.toPrimitive]

variable {place place' : List Nat} {value value' : Json}

theorem Twin.ofJson (both : Json.TwinAt root root' place place' value value') :
    Twin root root' (ofJson place value) (ofJson place' value') := by
  have h := Twin.tree both
  cases both.twin.reordered with
  | scalar scalar =>
      cases value with
      | arr _ | obj _ => cases scalar
      | null | bool _ | num _ | str _ => exact .scalar nofun
  | arr _ | obj _ _ _ => exact h

theorem Twin.child (both : Json.TwinAt root root' place place' value value') (name : String) :
    Twin root root' (child place value name) (child place' value' name) := by
  cases both.twin.samePosition (.name name) with
  | none named named' =>
      rw [Operand.child, Operand.child, childPosition?_eq, childPosition?_eq, named, named']
      exact .scalar (by rintro _ _ ⟨⟩)
  | some named named' listed listed' children =>
      simp only [Operand.child, childPosition?_eq, named, named', Json.childAt?_of_children listed,
        Json.childAt?_of_children listed']
      exact .ofJson (both.below listed listed' children)

theorem textMember_ne_tree (text : List Char) (name : String) (place : List Nat) (value : Json) :
    textMember text name ≠ .tree place value := by
  intro same
  rw [textMember] at same
  by_cases length : name = "length"
  · rw [if_pos length] at same
    cases same
  · rw [if_neg length] at same
    cases selected : (Script.arrayIndex? name.toList).bind (text[·]?) with
    | none =>
        rw [selected] at same
        cases same
    | some _ =>
        rw [selected] at same
        cases same

theorem Twin.treeMember (both : Json.TwinAt root root' place place' value value') (name : String) :
    Twin root root' (treeMember place value name) (treeMember place' value' name) := by
  have child := Twin.child both name
  cases both.twin.reordered with
  | scalar scalar =>
      cases value with
      | arr _ | obj _ => cases scalar
      | null | bool _ | num _ | str _ => exact child
  | obj _ _ _ => exact child
  | arr items =>
      rw [Operand.treeMember, Operand.treeMember, items.length_eq]
      split
      · exact .scalar (by rintro _ _ ⟨⟩)
      · exact child

theorem Twin.member (h : Twin root root' a a') (name : String) :
    Together (Twin root root') (a.member name) (a'.member name) := by
  cases h with
  | scalar scalar =>
      cases a with
      | tree place value => exact absurd rfl (scalar place value)
      | undefined | null => exact .error
      | bool _ | number _ => exact .ok (.scalar nofun)
      | text s => exact .ok (.scalar (textMember_ne_tree s.toList name))
  | tree both => exact .ok (.treeMember both name)

theorem plus_ne_tree (a b : Operand) (place : List Nat) (value : Json) :
    a.plus b ≠ .tree place value := by
  rw [plus]
  split <;> exact nofun

end Operand

/-! ## Expressions -/

namespace Expr

variable {a a' b b' : Operand}

theorem combine_twin (roots : root.Twin root') (op : BinaryOp) (h : Operand.Twin root root' a a')
    (h' : Operand.Twin root root' b b') :
    Operand.Twin root root' (combine op a b) (combine op a' b') := by
  cases op with
  | or | and =>
      rw [combine, combine, h.truthy]
      split
      · assumption
      · assumption
  | eq | ne =>
      rw [combine, combine, h.looseEq roots h']
      exact .scalar nofun
  | strictEq | strictNe =>
      rw [combine, combine, h.strictEq roots h']
      exact .scalar nofun
  | lt | le | gt | ge =>
      rw [combine, combine, h.compare? h']
      exact .scalar nofun
  | add =>
      rw [combine, combine, h.plus h']
      exact .scalar (Operand.plus_ne_tree a' b')
  | sub | mul | div | rem =>
      rw [combine, combine, h.toNumber, h'.toNumber]
      exact .scalar nofun

theorem decides_twin (op : BinaryOp) (h : Operand.Twin root root' a a') :
    decides op a = decides op a' := by
  cases op <;> simp only [decides, h.truthy]

/-- The values of an expression at twins correspond, or there are none. -/
theorem eval_twin (expr : Expr) (roots : root.Twin root') (path : Option String) :
    Together (Operand.Twin root root') (expr.eval root path) (expr.eval root' path) := by
  induction expr with
  | literal l =>
      refine .ok (.scalar ?_)
      cases l <;> exact nofun
  | value => exact .ok (.ofJson roots.here)
  | path =>
      refine .ok (.scalar ?_)
      cases path <;> exact nofun
  | member target name ih => exact ih.bind fun _ _ h => h.member name
  | index target position ih ih' =>
      refine ih.bind fun _ _ h => ih'.bind fun _ _ h' => ?_
      rw [h'.toText]
      exact h.member _
  | unary op operand ih =>
      cases op with
      | not =>
          refine ih.bind fun _ _ h => ?_
          rw [h.truthy]
          exact .ok (.scalar nofun)
      | neg =>
          refine ih.bind fun _ _ h => ?_
          rw [h.toNumber]
          exact .ok (.scalar nofun)
  | binary op left right ih ih' =>
      refine ih.bind fun a a' h => ?_
      rw [decides_twin op h]
      split
      · exact .ok h
      · exact ih'.bind fun _ _ h' => .ok (combine_twin roots op h h')

end Expr

/-! ## Scripts -/

namespace Script

theorem evaluate_twin (script : Script) (roots : root.Twin root') (path : Option String) :
    Together (Operand.Twin root root') (script.evaluate root path) (script.evaluate root' path) :=
  (script.expr.eval_twin roots path).mapError (Fault.script script.source)

theorem operandKey?_twin {a a' : Operand} (h : Operand.Twin root root' a a') :
    operandKey? a = operandKey? a' := by
  cases h <;> rfl

theorem key_twin (script : Script) (roots : root.Twin root') (path : Option String) :
    Together Eq (script.key root path) (script.key root' path) := by
  refine (script.evaluate_twin roots path).bind fun a a' h => ?_
  rw [operandKey?_twin h]
  cases operandKey? a' with
  | none => exact .error
  | some key => exact .ok rfl

theorem test_twin (script : Script) (roots : root.Twin root') (path : Option String) :
    Together Eq (script.test root path) (script.test root' path) :=
  (script.evaluate_twin roots path).bind fun _ _ h => .ok h.truthy

end Script

end TreePath
