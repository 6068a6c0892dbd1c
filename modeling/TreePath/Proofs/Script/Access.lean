/-
# Access — paths and scripts look up the same children

A path looks a child up under a key, which is a position or a name and was perhaps read from a bare token.  A
script looks it up under a name, in a way of its own: in an array it decides by itself which names are
positions, and `length` is no child there.

All of them agree, and `lookups_agree` says so for every value:

* a position, its decimal text as a name and that text as a bare token lead to one child;
* a script that reads a property of an array or object has the operand of the child that a path finds under
  that name, whether the name is written as a member or computed in brackets.

The two tests for positions are proved equal first (`arrayIndex?_eq`): scripts compare the digits with a
bound, and paths compare the numeral with its canonical form.
-/
import TreePath.Proofs.Path.Canonical
import TreePath.Script.Eval

namespace TreePath

/-! ## Names that are positions -/

namespace Script

theorem arrayIndex?_eq (name : List Char) : arrayIndex? name = Key.canonicalIndex? name := by
  have leading : (1 < name.length ∧ name.head? = some '0') ↔
      (name.head? = some '0' ∧ name ≠ ['0']) := by
    rcases name with _ | ⟨first, _ | ⟨second, rest⟩⟩ <;> simp
  rw [arrayIndex?, Key.canonicalIndex?, Bool.or_comm]
  by_cases numeral : (name.isEmpty || !name.all Char.isDigit) = true
  · rw [if_pos numeral, if_pos numeral, ite_self]
  · rw [if_neg numeral, if_neg numeral]
    by_cases zero : name.head? = some '0' ∧ name ≠ ['0']
    · rw [if_pos (leading.mpr zero), if_pos zero]
    · rw [if_neg (mt leading.mp zero), if_neg zero]

end Script

namespace Operand

theorem childPosition?_eq (owner : Json) (name : String) :
    childPosition? owner name = (Key.name name).position? owner := by
  cases owner with
  | arr items => rw [childPosition?, Script.arrayIndex?_eq, Key.position?, Key.index?]
  | obj members => rfl
  | null | bool _ | num _ | str _ => rfl

/-- The operand of the child that a key leads to, below a container at a place. -/
def underKey (place : List Nat) (owner : Json) (key : Key) : Operand :=
  ((key.position? owner).bind fun position =>
    (owner.childAt? position).map (ofJson (place ++ [position]))).getD .undefined

theorem child_eq_underKey (place : List Nat) (owner : Json) (name : String) :
    child place owner name = underKey place owner (.name name) := by
  simp only [child, underKey, childPosition?_eq]
  cases (Key.name name).position? owner with
  | none => rfl
  | some position =>
      simp only [Option.bind_some]
      cases owner.childAt? position <;> rfl

def property (place : List Nat) (owner : Json) (name : String) : Operand :=
  if owner.isArray ∧ name = "length" then ofLength owner.children.length
  else underKey place owner (.name name)

theorem member_ofJson {owner : Json} (container : owner.isContainer = true) (place : List Nat)
    (name : String) : (ofJson place owner).member name = .ok (property place owner name) := by
  cases owner with
  | arr items =>
      show Except.ok (treeMember place (.arr items) name) = _
      rw [treeMember, property, child_eq_underKey]
      by_cases length : name = "length"
      · rw [if_pos length, if_pos ⟨rfl, length⟩, Json.children, List.length_map, List.length_zipIdx]
      · rw [if_neg length, if_neg fun both => length both.2]
  | obj members =>
      have noArray : ¬((Json.obj members).isArray = true ∧ name = "length") := by
        simp [Json.isArray]
      rw [property, if_neg noArray, ← child_eq_underKey]
      rfl
  | null | bool _ | num _ | str _ => cases container

end Operand

/-! ## The routes to a child -/

def Key.Agree (key key' : Key) (owner : Json) : Prop :=
  key.position? owner = key'.position? owner ∧ key.child? owner = key'.child? owner

theorem Key.agree_of_position? {key key' : Key} {owner : Json}
    (same : key.position? owner = key'.position? owner) : key.Agree key' owner :=
  ⟨same, by rw [child?, child?, same]⟩

/-- In every value a bare token leads to the child that it names, and a position to the one that its
decimal text names; and wherever a script has an array or object, it reads under a name, written as a
member or computed in brackets, what a path finds there. -/
theorem lookups_agree (owner : Json) (name : String) :
    (Key.ofBare name).Agree (.name name) owner ∧
    (∀ position < Key.positionBound,
      (Key.index position).Agree (.name (Text.decimal position)) owner) ∧
    (owner.isContainer = true → ∀ (value : Json) (path : Option String) (target : Expr) place,
      target.eval value path = .ok (.ofJson place owner) →
        (Expr.member target name).eval value path = .ok (.property place owner name) ∧
        ∀ (subscript : Expr) operand, subscript.eval value path = .ok operand →
          operand.toText = name →
            (Expr.index target subscript).eval value path = .ok (.property place owner name)) := by
  refine ⟨?_, ?_, ?_⟩
  · exact Key.agree_of_position? (Key.position?_canonical (k := .name name) trivial owner)
  · intro position fits
    -- Both are forms of one token.
    have canonical : (Key.index position).canonical = (Key.name (Text.decimal position)).canonical :=
      rfl
    refine Key.agree_of_position? ?_
    rw [← Key.position?_canonical (k := .index position) fits owner, canonical,
      Key.position?_canonical (k := .name _) trivial owner]
  · intro container value path target place evaluated
    have read := Operand.member_ofJson container place name
    refine ⟨?_, ?_⟩
    · rw [Expr.eval, evaluated]
      exact read
    · rintro subscript operand computed rfl
      rw [Expr.eval, evaluated]
      show (subscript.eval value path >>= fun x => (Operand.ofJson place owner).member x.toText) = _
      rw [computed]
      exact read

/-- The number 1 in brackets, and the text `1`, are the second item of an array; `01` is none, though it
is a member of an object. -/
theorem lookups_agree_numeral :
    let items := Json.arr [.null, .bool true]
    let members := Json.obj [("01", .bool false)]
    let one := Expr.literal (.number (.ofInt 1))
    (Expr.index .value one).eval items none = .ok (.bool true) ∧
      (Expr.index .value (.literal (.string "1"))).eval items none = .ok (.bool true) ∧
      (Expr.index .value (.literal (.string "01"))).eval items none = .ok .undefined ∧
      (Expr.index .value (.literal (.string "01"))).eval members none = .ok (.bool false) ∧
      (Key.index 1).Agree (.name "1") items := by
  intro items members one
  have written : (Operand.number (.ofInt 1)).toText = "1" := by decide +kernel
  obtain ⟨-, position, read⟩ := lookups_agree items "1"
  obtain ⟨-, -, unread⟩ := lookups_agree items "01"
  obtain ⟨-, -, named⟩ := lookups_agree members "01"
  refine ⟨?_, ?_, ?_, ?_, ?_⟩
  · exact (read rfl items none .value [] rfl).2 one _ rfl written
  · exact (read rfl items none .value [] rfl).2 _ _ rfl rfl
  · exact (unread rfl items none .value [] rfl).2 _ _ rfl rfl
  · exact (named rfl members none .value [] rfl).2 _ _ rfl rfl
  · exact position 1 (by decide)

end TreePath
