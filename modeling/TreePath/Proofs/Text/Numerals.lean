/-
# Numerals — decimal text and the positions it denotes

A canonical numeral is the decimal text of its value (`toDigits_ofDigits`), so a key has one text per
position: it denotes the position `i` exactly if its text is the decimal text of `i` and `i` is a position at
all.  That is `canonicalIndex?_eq_some_iff`, and most of what is known of keys comes from it.

The classes of characters are brought to code points first (`isDigit_iff` and its kin), where arithmetic
decides.

The section on blanks has when trimming leaves a text as it is: it is `Trimmed`, which numerals, names in
quotes and texts between brackets are for different reasons.
-/
import Mathlib.Data.List.Basic
import Mathlib.Data.List.Induction
import TreePath.Path.Key
import TreePath.Path.Slice
import TreePath.Text.Blank

namespace TreePath

namespace Text

theorem toList_decimal (n : Nat) : (decimal n).toList = Nat.toDigits 10 n := by
  rw [decimal, String.toList_ofList]

theorem ofDigits_toDigits (n : Nat) : ofDigits (Nat.toDigits 10 n) = n :=
  Nat.ofDigitChars_ten_toDigits

theorem ofDigits_concat (digits : List Char) (c : Char) :
    ofDigits (digits ++ [c]) = 10 * ofDigits digits + digitValue c := by
  rw [ofDigits, List.foldl_append]
  rfl

theorem isDigit_iff {c : Char} : c.isDigit = true ↔ 48 ≤ c.toNat ∧ c.toNat ≤ 57 := by
  simp only [Char.isDigit, Bool.and_eq_true, decide_eq_true_eq]
  exact Iff.rfl

theorem isUpper_iff {c : Char} : c.isUpper = true ↔ 65 ≤ c.toNat ∧ c.toNat ≤ 90 :=
  decide_eq_true_iff

theorem isLower_iff {c : Char} : c.isLower = true ↔ 97 ≤ c.toNat ∧ c.toNat ≤ 122 := by
  show (decide (97 ≤ c.val) && decide (c.val ≤ 122)) = true ↔ _
  rw [Bool.and_eq_true, decide_eq_true_eq, decide_eq_true_eq]
  exact Iff.rfl

theorem isAlpha_iff {c : Char} :
    c.isAlpha = true ↔
      (65 ≤ c.toNat ∧ c.toNat ≤ 90) ∨ (97 ≤ c.toNat ∧ c.toNat ≤ 122) := by
  show (c.isUpper || c.isLower) = true ↔ _
  rw [Bool.or_eq_true, isUpper_iff, isLower_iff]

theorem digitChar_digitValue {c : Char} (h : c.isDigit = true) :
    (digitValue c).digitChar = c := by
  obtain ⟨low, high⟩ := isDigit_iff.mp h
  have value : digitValue c < 10 := by
    show c.toNat - 48 < 10
    omega
  refine Char.ext (UInt32.toNat.inj ?_)
  show (digitValue c).digitChar.toNat = c.toNat
  rw [Nat.toNat_digitChar_of_lt_ten value]
  show 48 + (c.toNat - 48) = c.toNat
  omega

theorem ofDigits_pos {digits : List Char} (all : ∀ c ∈ digits, c.isDigit = true)
    (nonempty : digits ≠ []) (head : digits.head? ≠ some '0') : 0 < ofDigits digits := by
  induction digits using List.reverseRecOn with
  | nil => exact absurd rfl nonempty
  | append_singleton digits c ih =>
      rw [ofDigits_concat]
      by_cases empty : digits = []
      · subst empty
        have digit := isDigit_iff.mp (all c (by simp))
        have ne : c.toNat ≠ 48 := by
          intro eq
          exact head (congrArg some (Char.ext (UInt32.toNat.inj eq)))
        have : digitValue c = c.toNat - 48 := rfl
        omega
      · have pos := ih (fun c mem => all c (List.mem_append_left _ mem)) empty
          (by rwa [List.head?_append_of_ne_nil _ empty] at head)
        omega

/-- Digits without a leading zero are the decimal text of their value. -/
theorem toDigits_ofDigits {digits : List Char} (all : ∀ c ∈ digits, c.isDigit = true)
    (nonempty : digits ≠ []) (head : digits.head? = some '0' → digits = ['0']) :
    Nat.toDigits 10 (ofDigits digits) = digits := by
  induction digits using List.reverseRecOn with
  | nil => exact absurd rfl nonempty
  | append_singleton digits c ih =>
      have digit := digitChar_digitValue (all c (by simp))
      have value : digitValue c < 10 := by
        have := isDigit_iff.mp (all c (by simp))
        show c.toNat - 48 < 10
        omega
      rw [ofDigits_concat]
      by_cases empty : digits = []
      · subst empty
        rw [show 10 * ofDigits [] + digitValue c = digitValue c from Nat.zero_add _,
          Nat.toDigits_of_lt_base value, digit]
        rfl
      · have all' : ∀ c ∈ digits, c.isDigit = true := fun c mem => all c (List.mem_append_left _ mem)
        have head' : digits.head? ≠ some '0' := by
          intro zero
          have whole := head (by rwa [List.head?_append_of_ne_nil _ empty])
          have := congrArg List.length whole
          simp only [List.length_append, List.length_cons, List.length_nil] at this
          exact empty (List.length_eq_zero_iff.mp (by omega))
        rw [← Nat.toDigits_append_toDigits (by decide) (ofDigits_pos all' empty head') value,
          ih all' empty (fun zero => absurd zero head'), Nat.toDigits_of_lt_base value, digit]

theorem isDigit_of_mem_toDigits {n : Nat} {c : Char} (mem : c ∈ Nat.toDigits 10 n) :
    c.isDigit = true :=
  Nat.isDigit_of_mem_toDigits (by decide) (by decide) mem

theorem head?_toDigits {n : Nat} (zero : (Nat.toDigits 10 n).head? = some '0') :
    Nat.toDigits 10 n = ['0'] := by
  rcases Nat.eq_zero_or_pos n with rfl | pos
  · exact Nat.toDigits_zero 10
  · exfalso
    induction n using Nat.strongRecOn with
    | _ n ih =>
        rw [Nat.toDigits_eq_if (by decide)] at zero
        split at zero
        · rename_i small
          have toNat := Nat.toNat_digitChar_of_lt_ten small
          rw [Option.some.inj zero] at toNat
          have : ('0' : Char).toNat = 48 := rfl
          omega
        · rw [List.head?_append_of_ne_nil _ Nat.toDigits_ne_nil] at zero
          exact ih (n / 10) (by omega) zero (by omega)

/-! ## Blanks -/

theorem isBlank_of_visible {c : Char} (low : 32 < c.toNat) (high : c.toNat < 133) :
    isBlank c = false := by
  rw [isBlank, Ranges.covers, List.any_eq_false]
  intro range mem
  simp only [blankRanges, List.mem_cons, List.not_mem_nil, or_false] at mem
  simp only [Bool.and_eq_true, decide_eq_true_eq, not_and]
  rcases mem with rfl | rfl | rfl | rfl | rfl | rfl | rfl | rfl | rfl | rfl <;> omega

theorem isBlank_of_isDigit {c : Char} (h : c.isDigit = true) : isBlank c = false := by
  obtain ⟨low, high⟩ := isDigit_iff.mp h
  exact isBlank_of_visible (by omega) (by omega)

/-- Text that neither begins nor ends with a blank. -/
def Trimmed (text : List Char) : Prop :=
  (∀ c, text.head? = some c → isBlank c = false) ∧
    ∀ c, text.getLast? = some c → isBlank c = false

theorem dropWhile_isBlank {text : List Char} (h : ∀ c, text.head? = some c → isBlank c = false) :
    text.dropWhile isBlank = text := by
  cases text with
  | nil => rfl
  | cons c rest => exact List.dropWhile_cons_of_neg (by simp [h c rfl])

theorem trim_eq_self {text : List Char} (h : Trimmed text) : trim text = text := by
  rw [trim, dropWhile_isBlank h.1, trimRight, dropWhile_isBlank, List.reverse_reverse]
  rw [List.head?_reverse]
  exact h.2

theorem trimRight_append (before text : List Char) :
    trimRight (before ++ text) =
      if trimRight text = [] then trimRight before else before ++ trimRight text := by
  simp only [trimRight, List.reverse_append, List.dropWhile_append, List.reverse_eq_nil_iff,
    List.isEmpty_iff]
  split
  · rfl
  · rw [List.reverse_append, List.reverse_reverse]

theorem trimmed_of_forall {text : List Char} (h : ∀ c ∈ text, isBlank c = false) :
    Trimmed text :=
  ⟨fun c head => h c (List.mem_of_head? head), fun c last => h c (List.mem_of_getLast? last)⟩

theorem trimmed_cons_concat {first last : Char} (hf : isBlank first = false)
    (hl : isBlank last = false) (text : List Char) : Trimmed (first :: (text ++ [last])) := by
  refine ⟨?_, ?_⟩
  · rintro c ⟨⟩
    exact hf
  · intro c eq
    rw [← List.cons_append, List.getLast?_concat] at eq
    cases eq
    exact hl

theorem trimmed_toDigits (n : Nat) : Trimmed (Nat.toDigits 10 n) :=
  trimmed_of_forall fun _ mem => isBlank_of_isDigit (isDigit_of_mem_toDigits mem)

end Text

/-! ## Positions -/

namespace Key

theorem canonicalIndex?_eq_some_iff {numeral : List Char} {position : Nat} :
    canonicalIndex? numeral = some position ↔
      numeral = Nat.toDigits 10 position ∧ position < positionBound := by
  constructor
  · intro h
    rw [canonicalIndex?] at h
    split at h
    · cases h
    · rename_i digits
      simp only [Bool.or_eq_true, List.isEmpty_iff, Bool.not_eq_true', Bool.not_eq_false,
        not_or, List.all_eq_true] at digits
      split at h
      · cases h
      · rename_i head
        split at h
        · rename_i inside
          cases h
          refine ⟨(Text.toDigits_ofDigits digits.2 digits.1 ?_).symm, inside⟩
          intro zero
          by_cases lone : numeral = ['0']
          · exact lone
          · exact absurd ⟨zero, lone⟩ head
        · cases h
  · rintro ⟨rfl, inside⟩
    have digits : (Nat.toDigits 10 position).all Char.isDigit = true :=
      List.all_eq_true.mpr fun _ => Text.isDigit_of_mem_toDigits
    have head : ¬ ((Nat.toDigits 10 position).head? = some '0' ∧
        Nat.toDigits 10 position ≠ ['0']) :=
      fun h => h.2 (Text.head?_toDigits h.1)
    have nonempty : (Nat.toDigits 10 position).isEmpty = false :=
      List.isEmpty_eq_false_iff.mpr Nat.toDigits_ne_nil
    rw [canonicalIndex?, digits, nonempty, if_neg (by decide), if_neg head,
      Text.ofDigits_toDigits, if_pos inside]

theorem canonicalIndex?_toDigits {position : Nat} (h : position < positionBound) :
    canonicalIndex? (Nat.toDigits 10 position) = some position :=
  canonicalIndex?_eq_some_iff.mpr ⟨rfl, h⟩

end Key

end TreePath
