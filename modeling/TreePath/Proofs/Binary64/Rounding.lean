/-
# Rounding — finite numbers are rounded to finite whole numbers

The functions that round have to give numbers that a document can hold.  The rounding of a finite number is
computed as a whole number of ones and taken back to a double-precision number, and the question is whether
that can overflow.

* A magnitude is its own nearest number (`nearestRank_magnitude`), for every rank: the quotient that is
  rounded has at most 53 significant bits.
* From 2⁵³ on every magnitude is whole (`exists_whole_of_le`), so a rounding leaves it as it is.
* Below, the rounded number is 2⁵³ at most, and `isFinite_ofQuotient` has a finite number for it.

What the three roundings of magnitudes have in common is `RoundsToWhole`: whole numbers stay, and nothing
goes up by more than one.  From that alone `isFinite_toWhole` follows, and `isFinite_floor`, `isFinite_ceil`
and `isFinite_round` are its cases.
-/
import TreePath.Binary64.Arithmetic
import TreePath.Proofs.Binary64.Whole

namespace TreePath.Binary64

/-! ## Magnitudes are numbers -/

theorem nearestRank_significand {significand : Nat} (low : 2 ^ 52 ≤ significand)
    (high : significand < 2 ^ 53) (shift : Nat) :
    nearestRank (significand * 2 ^ shift) 1 = shift * binadeSize + significand := by
  have nonzero : significand ≠ 0 := by omega
  have bits : significand.log2 = 52 := (Nat.log2_eq_iff nonzero).mpr ⟨low, high⟩
  have cut : (significand * 2 ^ shift).log2 - 52 = shift := by
    rw [log2_mul_two_pow nonzero, bits, Nat.add_sub_cancel_left]
  rw [nearestRank, Nat.div_one, cut, Nat.one_shiftLeft,
    divNearestEven_mul significand (Nat.two_pow_pos shift)]

theorem nearestRank_fraction {fraction : Nat} (low : fraction < 2 ^ 52) :
    nearestRank fraction 1 = fraction := by
  have cut : fraction.log2 - 52 = 0 := by
    by_cases zero : fraction = 0
    · subst zero
      rfl
    · have bits : fraction.log2 < 52 := (Nat.log2_lt zero).mpr low
      omega
  have itself := divNearestEven_mul fraction Nat.one_pos
  rw [Nat.mul_one] at itself
  rw [nearestRank, Nat.div_one, cut, Nat.zero_mul, Nat.zero_add]
  exact itself

/-- A magnitude is a fraction of the first binade, or a significand that is moved up. -/
theorem magnitude_cases (rank : Nat) :
    (rank < 2 ^ 52 ∧ magnitude rank = rank) ∨
      ∃ shift significand, 2 ^ 52 ≤ significand ∧ significand < 2 ^ 53 ∧
        rank = shift * binadeSize + significand ∧ magnitude rank = significand * 2 ^ shift := by
  have size : binadeSize = 2 ^ 52 := Nat.one_shiftLeft 52
  have below : rank % binadeSize < binadeSize := Nat.mod_lt _ (by decide)
  have parts : rank / binadeSize * binadeSize + rank % binadeSize = rank := Nat.div_add_mod' ..
  rw [magnitude]
  by_cases first : rank / binadeSize = 0
  · rw [first, Nat.zero_mul, Nat.zero_add] at parts
    refine .inl ⟨?_, by rw [if_pos first, parts]⟩
    rwa [parts, size] at below
  · obtain ⟨shift, binade⟩ := Nat.exists_eq_succ_of_ne_zero first
    refine .inr ⟨shift, binadeSize + rank % binadeSize, by omega, by omega, ?_, ?_⟩
    · rwa [binade, Nat.succ_mul, Nat.add_assoc, eq_comm] at parts
    · rw [if_neg first, binade, Nat.succ_sub_one, Nat.shiftLeft_eq]

theorem nearestRank_magnitude (rank : Nat) : nearestRank (magnitude rank) 1 = rank := by
  obtain ⟨low, same⟩ | ⟨shift, significand, low, high, place, moved⟩ := magnitude_cases rank
  · rw [same, nearestRank_fraction low]
  · rw [moved, nearestRank_significand low high, ← place]

theorem ofQuotient_magnitude (negative : Bool) (rank : Fin rankCount) :
    ofQuotient negative (magnitude rank) 1 = .finite negative rank := by
  rw [ofQuotient]
  simp only [nearestRank_magnitude, dif_pos rank.isLt]

/-! ## Whole magnitudes -/

theorem exists_whole_of_le {rank : Nat} (large : 2 ^ 53 * unitsPerOne ≤ magnitude rank) :
    ∃ whole, magnitude rank = whole * unitsPerOne := by
  obtain ⟨ones, _, units⟩ := exists_unitsPerOne_eq
  rw [units] at large ⊢
  obtain ⟨low, same⟩ | ⟨shift, significand, low, high, _, moved⟩ := magnitude_cases rank
  · have positive : 2 ^ 53 * 1 ≤ 2 ^ 53 * 2 ^ ones := Nat.mul_le_mul_left _ (Nat.two_pow_pos ones)
    omega
  · rw [moved] at large ⊢
    have power : 2 ^ ones ≤ 2 ^ shift := by
      refine Nat.le_of_mul_le_mul_left (Nat.le_trans large ?_) (Nat.two_pow_pos 53)
      exact Nat.mul_le_mul_right _ (Nat.le_of_lt high)
    have enough : ones ≤ shift := (Nat.pow_le_pow_iff_right Nat.one_lt_two).mp power
    refine ⟨significand * 2 ^ (shift - ones), ?_⟩
    rw [Nat.mul_assoc, ← Nat.pow_add, Nat.sub_add_cancel enough]

theorem isFinite_ofQuotient {whole : Nat} (small : whole ≤ 2 ^ 53) (negative : Bool) :
    (ofQuotient negative (whole * unitsPerOne) 1).isFinite = true := by
  have finite : nearestRank (whole * unitsPerOne) 1 < rankCount := by
    by_cases zero : whole = 0
    · subst zero
      rw [Nat.zero_mul, nearestRank_fraction (Nat.two_pow_pos 52)]
      decide
    · obtain ⟨_, _, bound, _⟩ := magnitude_nearestRank zero
      have bits : whole.log2 < 54 := (Nat.log2_lt zero).mpr (by omega)
      have size : 0 < binadeSize := by decide
      refine Nat.lt_of_le_of_lt bound ?_
      exact Nat.mul_lt_mul_of_pos_right (by omega) size
  rw [ofQuotient, dif_pos finite]
  rfl

/-! ## Roundings -/

/-- A rounding of magnitudes leaves whole numbers as they are, and goes up by one at most. -/
structure RoundsToWhole (round : Nat → Nat) : Prop where
  whole : ∀ whole, round (whole * unitsPerOne) = whole
  near : ∀ units, round units ≤ units / unitsPerOne + 1

theorem isFinite_toWhole {round : Bool → Nat → Nat} (rounds : ∀ negative, RoundsToWhole (round negative))
    {x : Binary64} (finite : x.isFinite = true) : (toWhole round x).isFinite = true := by
  cases x with
  | nan | infinite _ => cases finite
  | finite negative rank =>
      show (ofQuotient negative (round negative (magnitude rank) * unitsPerOne) 1).isFinite = true
      -- A rounding could leave the finite numbers only upwards, where nothing is left to round.
      by_cases large : 2 ^ 53 * unitsPerOne ≤ magnitude rank
      · obtain ⟨whole, same⟩ := exists_whole_of_le large
        rw [same, (rounds negative).whole, ← same, ofQuotient_magnitude]
        rfl
      · have below : magnitude rank / unitsPerOne < 2 ^ 53 := by
          rw [Nat.div_lt_iff_lt_mul unitsPerOne_pos]
          exact Nat.not_le.mp large
        have near := (rounds negative).near (magnitude rank)
        exact isFinite_ofQuotient (by omega) negative

theorem roundsToWhole_wholeBelow : RoundsToWhole wholeBelow where
  whole whole := Nat.mul_div_cancel whole unitsPerOne_pos
  near _ := Nat.le_succ _

theorem roundsToWhole_wholeAbove : RoundsToWhole wholeAbove where
  whole whole := by
    have positive := unitsPerOne_pos
    refine Nat.div_eq_of_lt_le (Nat.le_add_right _ _) ?_
    rw [Nat.succ_mul]
    omega
  near units := by
    rw [wholeAbove, ← Nat.add_div_right units unitsPerOne_pos]
    exact Nat.div_le_div_right (by omega)

theorem roundsToWhole_half :
    RoundsToWhole fun units => (2 * units + unitsPerOne) / (2 * unitsPerOne) where
  whole whole := by
    have positive := unitsPerOne_pos
    have twice : 2 * (whole * unitsPerOne) = whole * (2 * unitsPerOne) := Nat.mul_left_comm ..
    refine Nat.div_eq_of_lt_le ?_ ?_
    · rw [twice]
      exact Nat.le_add_right _ _
    · rw [twice, Nat.succ_mul whole]
      omega
  near units := by
    have positive := unitsPerOne_pos
    have above : units < (units / unitsPerOne + 1) * unitsPerOne :=
      Nat.lt_mul_of_div_lt (Nat.lt_succ_self _) positive
    refine Nat.le_of_lt_succ ((Nat.div_lt_iff_lt_mul (by omega)).mpr ?_)
    generalize units / unitsPerOne + 1 = next at above ⊢
    rw [Nat.succ_mul next, Nat.mul_left_comm next]
    omega

theorem isFinite_floor {x : Binary64} (finite : x.isFinite = true) : x.floor.isFinite = true := by
  rw [floor]
  refine isFinite_toWhole (fun negative => ?_) finite
  cases negative with
  | false => simpa using roundsToWhole_wholeBelow
  | true => simpa using roundsToWhole_wholeAbove

theorem isFinite_ceil {x : Binary64} (finite : x.isFinite = true) : x.ceil.isFinite = true := by
  rw [ceil]
  refine isFinite_toWhole (fun negative => ?_) finite
  cases negative with
  | false => simpa using roundsToWhole_wholeAbove
  | true => simpa using roundsToWhole_wholeBelow

theorem isFinite_round {x : Binary64} (finite : x.isFinite = true) : x.round.isFinite = true := by
  rw [round]
  exact isFinite_toWhole (fun _ => roundsToWhole_half) finite

theorem isFinite_abs {x : Binary64} (finite : x.isFinite = true) : x.abs.isFinite = true := by
  cases x with
  | nan | infinite _ => cases finite
  | finite _ _ => rfl

end TreePath.Binary64
