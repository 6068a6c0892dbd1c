/-
# Whole — whole numbers in double precision

Scripts compute in double precision, and positions are whole numbers.  A whole number is a multiple of the
unit, and cutting it to 53 significant bits leaves one: the number nearest to an integer of a word is an
integer again.  Up to 2⁵³ nothing is cut, and it is the integer itself.

The main result is `exists_toInt?_ofInt`, for integers of 64 bits.  It comes from `magnitude_nearestRank`,
by the two ways in which a quotient is rounded: numbers of 53 bits at most are significands that are moved up
(`divNearestEven_of_le`), and longer ones are rounded to such a number (`divNearestEven_of_lt`), where they
may reach the next power of two.

The number of units in one is a power with an exponent above a thousand.  The lemmas have it as a variable,
so that nothing computes the power.
-/
import Mathlib.Algebra.Group.Nat.Defs
import TreePath.Binary64.Basic

namespace TreePath.Binary64

/-! ## Magnitudes -/

theorem magnitude_behind {cut significand : Nat} (normal : binadeSize ≤ significand ∨ cut = 0)
    (small : significand ≤ 2 * binadeSize) :
    magnitude (cut * binadeSize + significand) = significand * 2 ^ cut := by
  have positive : 0 < binadeSize := by decide
  have binade : (cut * binadeSize + significand) / binadeSize = significand / binadeSize + cut := by
    rw [Nat.add_comm, Nat.add_mul_div_right _ _ positive]
  have fraction : (cut * binadeSize + significand) % binadeSize = significand % binadeSize := by
    rw [Nat.add_comm, Nat.add_mul_mod_self_right]
  rw [magnitude, binade, fraction]
  generalize binadeSize = size at *
  by_cases first : significand < size
  · have none : cut = 0 := normal.resolve_left (by omega)
    subst none
    simp [Nat.div_eq_of_lt first, Nat.mod_eq_of_lt first]
  by_cases second : significand < 2 * size
  · have one : significand / size = 1 := Nat.div_eq_of_lt_le (by omega) (by omega)
    have rest : significand % size = significand - size := by
      rw [Nat.mod_eq_sub_mod (by omega), Nat.mod_eq_of_lt (by omega)]
    rw [one, rest, if_neg (by omega), Nat.add_sub_cancel_left, Nat.shiftLeft_eq,
      Nat.add_sub_cancel' (by omega)]
  · have two : significand = 2 * size := by omega
    subst two
    rw [Nat.mul_div_cancel _ positive, Nat.mul_mod_left, if_neg (by omega), Nat.add_zero,
      Nat.shiftLeft_eq, show 2 + cut - 1 = cut + 1 by omega, Nat.pow_succ, Nat.mul_comm (2 ^ cut),
      ← Nat.mul_assoc, Nat.mul_comm size]

/-! ## Quotients -/

theorem divNearestEven_mul (k : Nat) {den : Nat} (positive : 0 < den) :
    divNearestEven (k * den) den = k := by
  rw [divNearestEven, Nat.mul_div_cancel _ positive, Nat.mul_mod_left]
  exact if_pos positive

theorem divNearestEven_near (num den : Nat) :
    num / den ≤ divNearestEven num den ∧ divNearestEven num den ≤ num / den + 1 := by
  simp only [divNearestEven]
  split
  · omega
  split
  · omega
  split <;> omega

/-! ## Integers -/

theorem unitsPerOne_pos : 0 < unitsPerOne := by
  decide

/-- The exponent stands as a variable, so that nothing computes the power. -/
theorem exists_unitsPerOne_eq : ∃ shift, shift = 1074 ∧ unitsPerOne = 2 ^ shift := by
  refine ⟨1074, rfl, ?_⟩
  rw [← Nat.one_shiftLeft]
  rfl

theorem log2_mul_two_pow {a : Nat} (positive : a ≠ 0) (k : Nat) :
    (a * 2 ^ k).log2 = a.log2 + k := by
  have power : 0 < 2 ^ k := Nat.two_pow_pos k
  refine (Nat.log2_eq_iff (Nat.mul_ne_zero positive (Nat.ne_of_gt power))).mpr ⟨?_, ?_⟩
  · rw [Nat.pow_add]
    exact Nat.mul_le_mul_right _ (Nat.log2_self_le positive)
  · rw [Nat.add_right_comm, Nat.pow_add]
    exact Nat.mul_lt_mul_of_pos_right Nat.lt_log2_self power

section significand

variable {a bits : Nat} (low : 2 ^ bits ≤ a) (high : a < 2 ^ (bits + 1))

include low high

theorem divNearestEven_of_le (short : bits ≤ 52) (shift : Nat) (room : 52 ≤ shift) :
    divNearestEven (a * 2 ^ shift) (2 ^ (bits + shift - 52)) = a * 2 ^ (52 - bits) ∧
      2 ^ 52 ≤ a * 2 ^ (52 - bits) ∧ a * 2 ^ (52 - bits) ≤ 2 * 2 ^ 52 := by
  have power : 0 < 2 ^ (52 - bits) := Nat.two_pow_pos _
  have same : a * 2 ^ shift = a * 2 ^ (52 - bits) * 2 ^ (bits + shift - 52) := by
    rw [Nat.mul_assoc, ← Nat.pow_add, show 52 - bits + (bits + shift - 52) = shift by omega]
  refine ⟨?_, ?_, ?_⟩
  · rw [same]
    exact divNearestEven_mul _ (Nat.two_pow_pos _)
  · have below := Nat.mul_le_mul_right (2 ^ (52 - bits)) low
    rwa [← Nat.pow_add, Nat.add_sub_cancel' short] at below
  · have above := Nat.mul_le_mul_right (2 ^ (52 - bits)) (Nat.le_of_lt high)
    rwa [← Nat.pow_add, show bits + 1 + (52 - bits) = 52 + 1 by omega, Nat.pow_succ',
      ] at above

theorem divNearestEven_of_lt (long : 52 < bits) (shift : Nat) :
    let significand := divNearestEven (a * 2 ^ shift) (2 ^ (bits + shift - 52))
    2 ^ 52 ≤ significand ∧ significand ≤ 2 * 2 ^ 52 := by
  intro significand
  have power : 0 < 2 ^ (bits - 52) := Nat.two_pow_pos _
  have quotient : a * 2 ^ shift / 2 ^ (bits + shift - 52) = a / 2 ^ (bits - 52) := by
    rw [show bits + shift - 52 = bits - 52 + shift by omega, Nat.pow_add]
    exact Nat.mul_div_mul_right _ _ (Nat.two_pow_pos shift)
  have near := divNearestEven_near (a * 2 ^ shift) (2 ^ (bits + shift - 52))
  rw [quotient] at near
  have below : 2 ^ 52 ≤ a / 2 ^ (bits - 52) := by
    rw [Nat.le_div_iff_mul_le power, ← Nat.pow_add, Nat.add_sub_cancel' (Nat.le_of_lt long)]
    exact low
  have above : a / 2 ^ (bits - 52) < 2 * 2 ^ 52 := by
    rw [Nat.div_lt_iff_lt_mul power, ← Nat.pow_succ', ← Nat.pow_add,
      show 52 + 1 + (bits - 52) = bits + 1 by omega]
    exact high
  omega

end significand

/-- The magnitude nearest to a whole number is whole: the number itself up to 2⁵³, and at most the next
power of two beyond. -/
theorem magnitude_nearestRank {a : Nat} (positive : a ≠ 0) :
    ∃ whole, magnitude (nearestRank (a * unitsPerOne) 1) = whole * unitsPerOne ∧
      nearestRank (a * unitsPerOne) 1 ≤ (a.log2 + 1024) * binadeSize ∧
      whole ≤ 2 ^ (a.log2 + 1) ∧ (a ≤ 2 ^ 53 → whole = a) := by
  obtain ⟨shift, shift_eq, units⟩ := exists_unitsPerOne_eq
  have size : binadeSize = 2 ^ 52 := Nat.one_shiftLeft 52
  have low : 2 ^ a.log2 ≤ a := Nat.log2_self_le positive
  have high : a < 2 ^ (a.log2 + 1) := Nat.lt_log2_self
  have rank : nearestRank (a * unitsPerOne) 1 = (a.log2 + shift - 52) * binadeSize +
      divNearestEven (a * 2 ^ shift) (2 ^ (a.log2 + shift - 52)) := by
    rw [nearestRank, units, Nat.div_one, log2_mul_two_pow positive, Nat.one_shiftLeft]
  rw [rank, units]
  generalize a.log2 = bits at *
  have bound : ∀ significand, significand ≤ 2 * binadeSize →
      (bits + shift - 52) * binadeSize + significand ≤ (bits + 1024) * binadeSize := by
    intro significand small
    rw [show bits + 1024 = bits + shift - 52 + 2 by omega, Nat.add_mul]
    exact Nat.add_le_add_left small _
  by_cases short : bits ≤ 52
  · obtain ⟨significand, least, largest⟩ := divNearestEven_of_le low high short shift (by omega)
    rw [significand]
    rw [← size] at least largest
    refine ⟨a, ?_, bound _ largest, Nat.le_of_lt high, fun _ => rfl⟩
    rw [magnitude_behind (.inl least) largest, Nat.mul_assoc, ← Nat.pow_add,
      show 52 - bits + (bits + shift - 52) = shift by omega]
  · obtain ⟨least, largest⟩ := divNearestEven_of_lt low high (by omega) shift
    rw [← size] at least largest
    refine ⟨divNearestEven (a * 2 ^ shift) (2 ^ (bits + shift - 52)) * 2 ^ (bits - 52), ?_,
      bound _ largest, ?_, ?_⟩
    · rw [magnitude_behind (.inl least) largest, Nat.mul_assoc, ← Nat.pow_add,
        show bits - 52 + shift = bits + shift - 52 by omega]
    · have whole := Nat.mul_le_mul_right (2 ^ (bits - 52)) largest
      rwa [size, ← Nat.pow_succ', ← Nat.pow_add, show 52 + 1 + (bits - 52) = bits + 1 by omega] at whole
    · intro fits
      have last : bits = 53 := by
        have := (Nat.pow_le_pow_iff_right (by decide : 1 < 2)).mp (Nat.le_trans low fits)
        omega
      subst last
      have power : a = 2 ^ 53 := Nat.le_antisymm fits low
      have exact : divNearestEven (a * 2 ^ shift) (2 ^ (53 + shift - 52)) = 2 ^ 52 := by
        rw [power, ← Nat.pow_add, show 53 + shift = 52 + (53 + shift - 52) by omega, Nat.pow_add,
          Nat.add_sub_cancel_left]
        exact divNearestEven_mul _ (Nat.two_pow_pos _)
      rw [exact, power, ← Nat.pow_add]

theorem natAbs_signed (negative : Bool) (magnitude : Nat) :
    (signed negative magnitude).natAbs = magnitude := by
  cases negative
  · exact Int.natAbs_natCast magnitude
  · exact (Int.natAbs_neg _).trans (Int.natAbs_natCast magnitude)

theorem signed_natAbs (n : Int) : signed (n < 0) n.natAbs = n := by
  simp only [signed, decide_eq_true_eq]
  split <;> omega

/-- The number nearest to an integer of 64 bits is an integer, the same up to 2⁵³. -/
theorem exists_toInt?_ofInt {n : Int} (word : n.natAbs < 2 ^ 64) :
    ∃ m, (ofInt n).toInt? = some m ∧ m.natAbs ≤ 2 ^ 64 ∧ (n.natAbs ≤ 2 ^ 53 → m = n) := by
  by_cases zero : n = 0
  · subst zero
    exact ⟨0, by decide, by decide, fun _ => rfl⟩
  obtain ⟨whole, magnitude, bound, least, same⟩ :=
    magnitude_nearestRank (a := n.natAbs) (Int.natAbs_ne_zero.mpr zero)
  have bits : n.natAbs.log2 < 64 := (Nat.log2_lt (Int.natAbs_ne_zero.mpr zero)).mpr word
  have finite : nearestRank (n.natAbs * unitsPerOne) 1 < rankCount := by
    have size : 0 < binadeSize := by decide
    refine Nat.lt_of_le_of_lt bound ?_
    exact Nat.mul_lt_mul_of_pos_right (by omega) size
  refine ⟨signed (n < 0) whole, ?_, ?_, ?_⟩
  · rw [ofInt, ofQuotient, dif_pos finite, toInt?]
    dsimp only
    rw [magnitude, Nat.mul_mod_left, if_pos rfl, Nat.mul_div_cancel _ unitsPerOne_pos]
  · rw [natAbs_signed]
    exact Nat.le_trans least (Nat.pow_le_pow_right (by decide) (by omega))
  · intro small
    rw [same small, signed_natAbs]

end TreePath.Binary64
