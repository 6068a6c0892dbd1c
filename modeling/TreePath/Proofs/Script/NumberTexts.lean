/-
# Number texts — a number in documents and in scripts

Documents write a float so that it shows as one, with a fraction or an exponent; scripts write all numbers
out and whole ones without a fraction.  A number is `WrittenAlike` if it has one text in both.

* An integer is, if a double holds it, and only then (`writtenAlike_iff`): scripts compute with doubles.  A
  double holds every integer up to 2⁵³.
* A float is not as soon as it is whole (`not_writtenAlike_of_whole`), or documents write an exponent
  (`not_writtenAlike_of_exponent`).

The texts matter since they are what keys are found by: `text_numberKey` and `exists_ofScalar?` say that the
key of a number is written as the number, in scripts and for paths.
-/
import TreePath.Proofs.Binary64.Whole
import TreePath.Proofs.Path.Subscripts
import TreePath.Script.Eval

namespace TreePath

namespace Text

theorem signedDecimal_injective {n m : Int} (same : signedDecimal n = signedDecimal m) : n = m := by
  have sign : ∀ a b : Nat, '-' :: Nat.toDigits 10 a ≠ Nat.toDigits 10 b := by
    intro a b eq
    have digit : ('-').isDigit = true := isDigit_of_mem_toDigits (eq ▸ List.mem_cons_self)
    cases digit
  have digits : ∀ a b : Nat, Nat.toDigits 10 a = Nat.toDigits 10 b → a = b := by
    intro a b eq
    rw [← ofDigits_toDigits a, eq, ofDigits_toDigits]
  have texts := congrArg String.toList same
  rw [Slice.toList_signedDecimal, Slice.toList_signedDecimal] at texts
  split at texts
  · split at texts
    · have := digits _ _ (List.cons.inj texts).2
      omega
    · exact absurd texts (sign _ _)
  · split at texts
    · exact absurd texts.symm (sign _ _)
    · have := digits _ _ texts
      omega

end Text

namespace Script

theorem numberText_of_toInt? {x : Binary64} {n : Int} (whole : x.toInt? = some n)
    (small : n.natAbs < 10 ^ 21) : numberText x = Text.signedDecimal n := by
  cases x with
  | nan => cases whole
  | infinite _ => cases whole
  | finite negative rank =>
      rw [numberText, whole]
      exact if_pos small

theorem text_numberKey (x : Binary64) : (numberKey x).text = numberText x := by
  rw [numberKey]
  split
  · rename_i n whole
    split
    · rename_i bounds
      have bound : indexBound = 2 ^ 53 := rfl
      rw [numberText_of_toInt? whole (by omega), Text.signedDecimal, if_neg (by omega), Key.text]
      congr 1
      omega
    · rfl
  · rfl

end Script

namespace Number

def WrittenAlike : Number → Prop
  | .integer n => (Binary64.ofInt n).toInt? = some n
  | .float x => (Number.float x).write = Script.numberText x

theorem exists_ofScalar? (n : Number) :
    ∃ key, Key.ofScalar? (.num n) = some key ∧ key.text = n.write := by
  cases n with
  | float x => exact ⟨_, rfl, rfl⟩
  | integer n =>
      refine ⟨_, rfl, ?_⟩
      split
      · show Text.decimal n.toNat = Text.signedDecimal n
        rw [Text.signedDecimal, if_neg (by omega)]
        congr 1
        omega
      · rfl

/-- A double that holds an integer is written as that integer, and one that does not as another. -/
theorem writtenAlike_iff {n : Number} (proper : n.Proper) :
    n.WrittenAlike ↔ n.write = Script.numberText n.toBinary64 := by
  cases n with
  | float x => rfl
  | integer n =>
      obtain ⟨low, high⟩ := proper
      have least : minInteger = -2 ^ 63 := rfl
      have bound : integerBound = 2 ^ 64 := rfl
      obtain ⟨m, nearest, small, -⟩ := Binary64.exists_toInt?_ofInt (n := n) (by omega)
      show (Binary64.ofInt n).toInt? = some n ↔
        Text.signedDecimal n = Script.numberText (Binary64.ofInt n)
      rw [Script.numberText_of_toInt? nearest (by omega), nearest]
      constructor
      · rintro ⟨⟩
        rfl
      · intro same
        rw [Text.signedDecimal_injective same]

theorem writtenAlike_of_le {n : Int} (small : n.natAbs ≤ 2 ^ 53) : (integer n).WrittenAlike := by
  obtain ⟨m, nearest, -, same⟩ := Binary64.exists_toInt?_ofInt (n := n) (by omega)
  rw [same small] at nearest
  exact nearest

theorem mem_writeOut (digits : List Char) (place : Int) :
    '.' ∈ Layout.writeOut true digits place := by
  rw [Layout.writeOut]
  split
  · simp
  · dsimp only
    split
    · simp
    · simp

theorem mem_writeScientific (digits : List Char) (place : Int) :
    'e' ∈ Layout.writeScientific digits place :=
  List.mem_append_right _ List.mem_cons_self

theorem mem_write (negative : Bool) (rank : Nat) :
    '.' ∈ (layout.write negative rank).toList ∨ 'e' ∈ (layout.write negative rank).toList := by
  have marked : ∀ digits place,
      let text :=
        if layout.positional place then Layout.writeOut layout.keepsFraction digits place
        else Layout.writeScientific digits place
      '.' ∈ text ∨ 'e' ∈ text := by
    intro digits place
    dsimp only
    split
    · exact .inl (mem_writeOut digits place)
    · exact .inr (mem_writeScientific digits place)
  rw [Layout.write, String.toList_ofList]
  split
  · exact (marked _ _).imp (List.mem_cons_of_mem _) (List.mem_cons_of_mem _)
  · exact marked _ _

/-- Only documents keep the fraction of a whole float. -/
theorem not_writtenAlike_of_whole {x : Binary64} {n : Int} (whole : x.toInt? = some n)
    (small : n.natAbs < 10 ^ 21) : ¬ (float x).WrittenAlike := by
  intro alike
  cases x with
  | nan => cases whole
  | infinite _ => cases whole
  | finite negative rank =>
      change layout.write negative rank = Script.numberText (.finite negative rank) at alike
      rw [Script.numberText_of_toInt? whole small] at alike
      have marked := mem_write negative rank
      rw [alike] at marked
      have digits : ∀ c ∈ (Text.signedDecimal n).toList, Slice.isBound c = true :=
        fun c mem => @Slice.isBound_of_mem (some n) c mem
      rcases marked with mem | mem
      · cases digits _ mem
      · cases digits _ mem

theorem notMem_writeOut (keepsFraction : Bool) {digits : List Char} (plain : 'e' ∉ digits)
    (place : Int) : 'e' ∉ Layout.writeOut keepsFraction digits place := by
  have zeros : ∀ count, 'e' ∉ List.replicate count '0' := by
    intro count mem
    exact absurd (List.eq_of_mem_replicate mem) (by decide)
  have whole : 'e' ∉ digits.take place.toNat := fun mem => plain (List.mem_of_mem_take mem)
  have fraction : 'e' ∉ digits.drop place.toNat := fun mem => plain (List.mem_of_mem_drop mem)
  rw [Layout.writeOut]
  split
  · simp [zeros, plain]
  · dsimp only
    split
    · cases keepsFraction <;> simp [zeros, whole]
    · simp [whole, fraction]

theorem notMem_numberText (negative : Bool) (rank : Fin Binary64.rankCount) :
    'e' ∉ (Script.numberText (.finite negative rank)).toList := by
  have digits : ∀ n, 'e' ∉ Nat.toDigits 10 n := by
    intro n mem
    cases Text.isDigit_of_mem_toDigits mem
  have laidOut : 'e' ∉ (Script.numberLayout.write negative rank).toList := by
    rw [Layout.write, String.toList_ofList]
    cases negative
    · exact notMem_writeOut _ (digits _) _
    · exact List.not_mem_cons_of_ne_of_not_mem (by decide) (notMem_writeOut _ (digits _) _)
  rw [Script.numberText]
  split
  · split
    · intro mem
      rename_i n _ _
      cases @Slice.isBound_of_mem (some n) 'e' mem
    · exact laidOut
  · exact laidOut

theorem not_writtenAlike_of_exponent {x : Binary64} (exponent : 'e' ∈ (float x).write.toList) :
    ¬ (float x).WrittenAlike := by
  intro alike
  have none : 'e' ∉ "null".toList := by decide
  cases x with
  | nan => exact absurd exponent none
  | infinite _ => exact absurd exponent none
  | finite negative rank =>
      rw [show (float (.finite negative rank)).write = _ from alike] at exponent
      exact notMem_numberText negative rank exponent

end Number

end TreePath
