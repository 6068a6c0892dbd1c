/-
# Progression — the positions of a slice

A slice is walked in signed words, with its bounds clamped to the array first.  The same positions can be
told in whole numbers without a walk: adjust the bounds to the array, and take the arithmetic progression
from the one to the other by the step.  `progression` is that selection, and
`map_indices_eq_progression` says that the walk lists it, for all bounds, steps and lengths.

* `ascend_eq_range` and `descend_eq_range` are about the walks alone: each lists the numbers up to its limit,
  and where it ends because the next position is no word, the progression has ended too.
* The clamped bounds are the first number and the limit of the progression, in either direction
  (`indices_ascending`, `indices_descending`).
* `indices?` is the selection with every sum on the way to the walk checked to be a word.  `indices?_eq`
  says that it never fails, so no sum of the selection leaves the words.
-/
import Mathlib.Data.List.Basic
import TreePath.Proofs.Path.Subscripts

namespace TreePath

namespace Slice

/-! ## Progressions -/

/-- How many of the numbers `start`, `start + step`, … come before `stop`. -/
def rangeLength (start stop step : Int) : Nat :=
  if 0 < step ∧ start < stop then ((stop - start - 1) / step + 1).toNat
  else if step < 0 ∧ stop < start then ((start - stop - 1) / -step + 1).toNat
  else 0

/-- The numbers `start`, `start + step`, … before `stop`; none for a step of zero. -/
def range (start stop step : Int) : List Int :=
  (List.range (rangeLength start stop step)).map fun k : Nat => start + k * step

/-- A bound as a number of an array: counted from its end if it is negative, and not beyond the least
and the largest. -/
def within (length least largest bound : Int) : Int :=
  if bound < 0 then max (bound + length) least else min bound largest

/-- The first number of a selection from an array. -/
def first (s : Slice) (length : Int) : Int :=
  if s.step.getD 1 < 0 then (s.start.map (within length (-1) (length - 1))).getD (length - 1)
  else (s.start.map (within length 0 length)).getD 0

/-- The number that a selection from an array comes to but does not take. -/
def limit (s : Slice) (length : Int) : Int :=
  if s.step.getD 1 < 0 then (s.stop.map (within length (-1) (length - 1))).getD (-1)
  else (s.stop.map (within length 0 length)).getD length

/-- The selection from an array of `length` items, in whole numbers. -/
def progression (s : Slice) (length : Int) : List Int :=
  range (s.first length) (s.limit length) (s.step.getD 1)

theorem rangeLength_neg (start stop step : Int) :
    rangeLength (-start) (-stop) (-step) = rangeLength start stop step := by
  simp only [rangeLength, Int.neg_neg]
  have up : -stop - -start - 1 = start - stop - 1 := by omega
  have down : -start - -stop - 1 = stop - start - 1 := by omega
  rw [up, down]
  split
  · rw [if_neg (by omega), if_pos (by omega)]
  · split
    · rw [if_pos (by omega)]
    · rw [if_neg (by omega), if_neg (by omega)]

/-- One step takes one number from the front of an ascending progression. -/
theorem rangeLength_add {start stop step : Int} (positive : 0 < step) (before : start < stop) :
    rangeLength start stop step = rangeLength (start + step) stop step + 1 := by
  rw [rangeLength, if_pos ⟨positive, before⟩, rangeLength]
  split
  · have shift : stop - start - 1 = stop - (start + step) - 1 + 1 * step := by omega
    have quotient : 0 ≤ (stop - (start + step) - 1) / step :=
      Int.ediv_nonneg (by omega) (by omega)
    rw [shift, Int.add_mul_ediv_right _ _ (by omega)]
    omega
  · rw [if_neg (by omega), Int.ediv_eq_zero_of_lt (by omega) (by omega)]
    rfl

theorem range_of_length {start stop step : Int}
    (more : rangeLength start stop step = rangeLength (start + step) stop step + 1) :
    range start stop step = start :: range (start + step) stop step := by
  rw [range, range, more, List.range_succ_eq_map, List.map_cons, List.map_map]
  congr 1
  · simp
  · refine List.map_congr_left ?_
    intro k _
    show start + (k + 1 : Nat) * step = start + step + k * step
    rw [Int.natCast_add, Int.add_mul]
    simp
    omega

theorem range_ascending {start stop step : Int} (positive : 0 < step) (before : start < stop) :
    range start stop step = start :: range (start + step) stop step :=
  range_of_length (rangeLength_add positive before)

theorem range_descending {start stop step : Int} (negative : step < 0) (before : stop < start) :
    range start stop step = start :: range (start + step) stop step := by
  refine range_of_length ?_
  have mirrored : rangeLength (-start) (-stop) (-step) = _ :=
    rangeLength_add (by omega) (by omega)
  rw [← Int.neg_add, rangeLength_neg, rangeLength_neg] at mirrored
  exact mirrored

theorem range_eq_nil {start stop step : Int} (up : 0 < step → stop ≤ start)
    (down : step < 0 → start ≤ stop) : range start stop step = [] := by
  rw [range, rangeLength, if_neg (by omega), if_neg (by omega)]
  rfl

/-! ## Walks -/

/-- An ascending walk to a word lists the progression: past the largest word there is nothing left. -/
theorem ascend_eq_range {step stop : Int} (positive : 0 < step) (word : stop ≤ maxWord) {i : Int}
    (inside : 0 ≤ i) : (ascend step positive stop i).map Int.ofNat = range i stop step := by
  fun_induction ascend step positive stop i with
  | case1 i before ih =>
      rw [range_ascending positive before, List.map_cons]
      have here : Int.ofNat i.toNat = i := Int.toNat_of_nonneg inside
      rw [here]
      split
      · rw [ih (by omega)]
      · rw [range_eq_nil (by omega) (by omega)]
        rfl
  | case2 i after => exact (range_eq_nil (by omega) (by omega)).symm

theorem descend_eq_range {step stop : Int} (negative : step < 0) (word : minWord ≤ stop)
    (outside : -1 ≤ stop) {i : Int} :
    (descend step negative stop i).map Int.ofNat = range i stop step := by
  fun_induction descend step negative stop i with
  | case1 i before ih =>
      rw [range_descending negative before, List.map_cons]
      have here : Int.ofNat i.toNat = i := Int.toNat_of_nonneg (by omega)
      rw [here]
      split
      · rw [ih]
      · rw [range_eq_nil (by omega) (by omega)]
        rfl
  | case2 i after => exact (range_eq_nil (by omega) (by omega)).symm

theorem bounds_of_mem_ascend {step stop : Int} {positive : 0 < step} {i : Int} (inside : 0 ≤ i)
    {position : Nat} (mem : position ∈ ascend step positive stop i) :
    i ≤ position ∧ position < stop := by
  fun_induction ascend step positive stop i with
  | case1 i before ih =>
      rcases List.mem_cons.mp mem with rfl | mem
      · omega
      · split at mem
        · have := ih (by omega) mem
          omega
        · cases mem
  | case2 i after => cases mem

theorem bounds_of_mem_descend {step stop : Int} {negative : step < 0} {i : Int}
    (outside : -1 ≤ stop) {position : Nat} (mem : position ∈ descend step negative stop i) :
    stop < position ∧ position ≤ i := by
  fun_induction descend step negative stop i with
  | case1 i before ih =>
      rcases List.mem_cons.mp mem with rfl | mem
      · omega
      · split at mem
        · have := ih mem
          omega
        · cases mem
  | case2 i after => cases mem

theorem pairwise_ascend {step stop : Int} {positive : 0 < step} {i : Int} (inside : 0 ≤ i) :
    (ascend step positive stop i).Pairwise (· < ·) := by
  fun_induction ascend step positive stop i with
  | case1 i before ih =>
      split
      · refine List.pairwise_cons.mpr ⟨?_, ih (by omega)⟩
        intro position mem
        have := bounds_of_mem_ascend (by omega) mem
        omega
      · exact List.pairwise_singleton _ _
  | case2 i after => exact .nil

theorem pairwise_descend {step stop : Int} {negative : step < 0} {i : Int} (outside : -1 ≤ stop) :
    (descend step negative stop i).Pairwise (· > ·) := by
  fun_induction descend step negative stop i with
  | case1 i before ih =>
      split
      · refine List.pairwise_cons.mpr ⟨?_, ih⟩
        intro position mem
        have := bounds_of_mem_descend outside mem
        omega
      · exact List.pairwise_singleton _ _
  | case2 i after => exact .nil

/-! ## Arithmetic in words -/

def wordSum? (a b : Int) : Option Int :=
  if minWord ≤ a + b ∧ a + b ≤ maxWord then some (a + b) else none

def clampUp? (length bound : Int) : Option Int :=
  if bound < 0 then (wordSum? bound length).map (max · 0) else some (min bound length)

def clampDown? (length bound : Int) : Option Int :=
  if bound < 0 then (wordSum? bound length).map (max · (-1))
  else (wordSum? length (-1)).map (min bound)

/-- The positions selected from `count` items, unless a sum on the way to the walk is no word.  The walk
itself asks for each of its sums whether it is one. -/
def indices? (s : Slice) (count : Nat) : Option (List Nat) := do
  let length : Int := min count maxWord
  let step := s.step.getD 1
  if positive : 0 < step then
    let start ← clampUp? length (s.start.getD 0)
    let stop ← clampUp? length (s.stop.getD length)
    return ascend step positive stop start
  else if negative : step < 0 then
    let last ← wordSum? length (-1)
    let start ← (s.start.map (clampDown? length)).getD (some last)
    let stop ← (s.stop.map (clampDown? length)).getD (some (-1))
    return descend step negative stop start
  else return []

theorem minWord_lt : minWord < -1 := by
  decide

section words

variable {length : Int} (nonneg : 0 ≤ length) (word : length ≤ maxWord)

include nonneg word

theorem wordSum?_bound {bound : Int} (least : minWord ≤ bound) (negative : bound < 0) :
    wordSum? bound length = some (bound + length) :=
  if_pos ⟨by omega, by omega⟩

theorem wordSum?_last : wordSum? length (-1) = some (length - 1) := by
  have := minWord_lt
  exact if_pos ⟨by omega, by omega⟩

theorem clampUp?_eq {bound : Int} (least : minWord ≤ bound) :
    clampUp? length bound = some (clampUp length bound) := by
  rw [clampUp?, clampUp]
  split
  · rename_i negative
    rw [wordSum?_bound nonneg word least negative]
    rfl
  · rfl

theorem clampDown?_eq {bound : Int} (least : minWord ≤ bound) :
    clampDown? length bound = some (clampDown length bound) := by
  rw [clampDown?, clampDown]
  split
  · rename_i negative
    rw [wordSum?_bound nonneg word least negative]
    rfl
  · rw [wordSum?_last nonneg word]
    rfl

theorem map_clampDown?_getD {bound : Option Int} (inWords : InWords bound) (default : Int) :
    (bound.map (clampDown? length)).getD (some default) =
      some ((bound.map (clampDown length)).getD default) := by
  cases bound with
  | none => rfl
  | some n => exact clampDown?_eq nonneg word (inWords n rfl).1

end words

theorem InWords.getD {bound : Option Int} (inWords : InWords bound) {default : Int}
    (word : minWord ≤ default) : minWord ≤ bound.getD default := by
  cases bound with
  | none => exact word
  | some n => exact (inWords n rfl).1

theorem indices?_eq {s : Slice} (start : InWords s.start) (stop : InWords s.stop) (count : Nat) :
    s.indices? count = some (s.indices count) := by
  have least := minWord_lt
  have largest : 0 ≤ maxWord := by decide
  have nonneg : 0 ≤ min (count : Int) maxWord := by omega
  have word : min (count : Int) maxWord ≤ maxWord := by omega
  rw [indices?, indices]
  split
  · rw [clampUp?_eq nonneg word (start.getD (by omega)),
      clampUp?_eq nonneg word (stop.getD (by omega))]
    rfl
  · split
    · rw [wordSum?_last nonneg word]
      show (Option.bind (Option.getD _ _) fun start => Option.bind (Option.getD _ _) _) = _
      rw [map_clampDown?_getD nonneg word start, map_clampDown?_getD nonneg word stop]
      rfl
    · rfl

/-! ## Selections -/

section selections

variable {s : Slice} {count : Nat} (small : (count : Int) ≤ maxWord)

include small

theorem indices_ascending (positive : 0 < s.step.getD 1) :
    s.indices count = ascend (s.step.getD 1) positive (s.limit count) (s.first count) ∧
      0 ≤ s.first count ∧ s.limit count ≤ count := by
  have length : min (count : Int) maxWord = count := by omega
  have first : s.first count = clampUp count (s.start.getD 0) := by
    rw [Slice.first, if_neg (by omega)]
    cases s.start with
    | none =>
        show 0 = clampUp count 0
        rw [clampUp, if_neg (by omega)]
        omega
    | some bound => rfl
  have limit : s.limit count = clampUp count (s.stop.getD count) := by
    rw [Slice.limit, if_neg (by omega)]
    cases s.stop with
    | none =>
        show (count : Int) = clampUp count count
        rw [clampUp, if_neg (by omega)]
        omega
    | some bound => rfl
  refine ⟨?_, ?_, ?_⟩
  · rw [indices, dif_pos positive, length, first, limit]
  · rw [first, clampUp]
    split <;> omega
  · rw [limit, clampUp]
    split <;> omega

theorem indices_descending (negative : s.step.getD 1 < 0) :
    s.indices count = descend (s.step.getD 1) negative (s.limit count) (s.first count) ∧
      -1 ≤ s.limit count ∧ s.first count < count := by
  have length : min (count : Int) maxWord = count := by omega
  have clamp : clampDown count = within count (-1) (count - 1) := rfl
  refine ⟨?_, ?_, ?_⟩
  · rw [indices, dif_neg (by omega), dif_pos negative, length, Slice.first, Slice.limit, if_pos negative,
      if_pos negative, clamp]
  · rw [Slice.limit, if_pos negative]
    cases s.stop with
    | none => exact Int.le_refl _
    | some bound =>
        show -1 ≤ within _ _ _ bound
        rw [within]
        split <;> omega
  · rw [Slice.first, if_pos negative]
    cases s.start with
    | none =>
        show (count : Int) - 1 < count
        omega
    | some bound =>
        show within _ _ _ bound < (count : Int)
        rw [within]
        split <;> omega

end selections

/-- The positions that a slice selects are the progression from its first number to its limit, adjusted to
the array.  They are inside the array, in the order of the step, and no sum on the way is beyond the
words.  A step of zero selects nothing. -/
theorem map_indices_eq_progression {s : Slice} (start : InWords s.start) (stop : InWords s.stop)
    {count : Nat} (small : (count : Int) ≤ maxWord) :
    s.indices? count = some (s.indices count) ∧
      (s.indices count).map Int.ofNat = s.progression count ∧
      (∀ position ∈ s.indices count, position < count) ∧
      (0 < s.step.getD 1 → (s.indices count).Pairwise (· < ·)) ∧
      (s.step.getD 1 < 0 → (s.indices count).Pairwise (· > ·)) ∧
      (s.step = some 0 → s.indices count = []) := by
  have least := minWord_lt
  refine ⟨indices?_eq start stop count, ?_⟩
  rcases Int.lt_trichotomy (s.step.getD 1) 0 with negative | zero | positive
  · obtain ⟨walk, outside, inside⟩ := indices_descending small negative
    rw [walk]
    refine ⟨descend_eq_range negative (by omega) outside, ?_, ?_, ?_, ?_⟩
    · intro position mem
      have := bounds_of_mem_descend outside mem
      omega
    · intro positive
      omega
    · intro _
      exact pairwise_descend outside
    · intro zero
      rw [zero] at negative
      cases negative
  · have none : s.indices count = [] := by
      rw [indices, dif_neg (by omega), dif_neg (by omega)]
    rw [none, progression, range_eq_nil (by omega) (by omega)]
    refine ⟨rfl, ?_, fun _ => .nil, fun _ => .nil, fun _ => rfl⟩
    intro position mem
    cases mem
  · obtain ⟨walk, inside, outside⟩ := indices_ascending small positive
    rw [walk]
    refine ⟨ascend_eq_range positive (by omega) inside, ?_, ?_, ?_, ?_⟩
    · intro position mem
      have := bounds_of_mem_ascend inside mem
      omega
    · intro _
      exact pairwise_ascend inside
    · intro negative
      omega
    · intro zero
      rw [zero] at positive
      cases positive

/-- From the third item but last, by so large a step that the next position is no word. -/
theorem map_indices_eq_progression_largest :
    let s : Slice := ⟨some (-3), none, some maxWord⟩
    InWords s.start ∧ InWords s.stop ∧ ((5 : Nat) : Int) ≤ maxWord ∧ s.progression 5 = [2] ∧
      s.indices? 5 = some [2] ∧ s.indices 5 = [2] := by
  intro s
  have start : InWords s.start := by
    rintro _ ⟨⟩
    decide
  have stop : InWords s.stop := by
    rintro _ ⟨⟩
  have small : ((5 : Nat) : Int) ≤ maxWord := by decide
  have progression : s.progression 5 = [2] := by decide
  obtain ⟨inWords, listed, _⟩ := map_indices_eq_progression start stop small
  have indices : s.indices 5 = [2] := by
    have same : (s.indices 5).map Int.ofNat = [2].map Int.ofNat := listed.trans progression
    exact List.map_injective_iff.mpr (fun _ _ => Int.ofNat.inj) same
  rw [indices] at inWords
  exact ⟨start, stop, small, progression, inWords, indices⟩

end Slice

end TreePath
