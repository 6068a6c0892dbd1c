/-
# Numbers in scripts — how they are written, and how much of a text they take

A number is digits, a fraction or none, and an exponent or none.  `NumberText` has the parts, so that only
numbers can be built, and `text` puts them together.

* Reading takes all of a number off a text, unless what follows could belong to it (`takeNumber_append`).
  `EndsNumber` is the condition: no character of a name, and no point with a digit behind it.
* It takes nothing but numbers (`exists_number`).
* The value is that of the whole text read as a decimal numeral; `read?_text` shows that it is always read.

The pieces of a number are runs of characters of a class, and `takeWhile_append_of_stops` is the one lemma
about runs: characters of a class before a text that begins with none are all that is taken.
-/
import Mathlib.Data.List.TakeWhile
import Mathlib.Tactic.Tauto
import TreePath.Script.Token

namespace TreePath

namespace Script

structure DigitRun where
  text : List Char
  nonempty : text ≠ []
  digits : ∀ c ∈ text, c.isDigit = true

/-- An exponent: its letter, a sign or none, and digits. -/
structure ExponentText where
  letter : Char
  isLetter : letter = 'e' ∨ letter = 'E'
  sign : List Char
  isSign : sign = [] ∨ sign = ['+'] ∨ sign = ['-']
  power : DigitRun

/-- The parts of a number as they are written. -/
structure NumberText where
  whole : DigitRun
  fraction : Option DigitRun
  exponent : Option ExponentText

/-- A point and the digits after it. -/
def fractionText : Option DigitRun → List Char
  | none => []
  | some run => '.' :: run.text

def exponentText : Option ExponentText → List Char
  | none => []
  | some e => e.letter :: (e.sign ++ e.power.text)

namespace NumberText

def text (n : NumberText) : List Char :=
  n.whole.text ++ (fractionText n.fraction ++ exponentText n.exponent)

/-- The number that the text is read as; `read?_text` shows that it is always read. -/
def value (n : NumberText) : Binary64 :=
  (Binary64.read? n.text).getD .nan

end NumberText

/-! ## Runs of digits -/

/-- The text does not begin with a character of the class. -/
def Stops (p : Char → Bool) (text : List Char) : Prop :=
  text.head?.any p = false

theorem stops_nil (p : Char → Bool) : Stops p [] :=
  rfl

theorem stops_cons {p : Char → Bool} {c : Char} {rest : List Char} :
    Stops p (c :: rest) ↔ p c = false :=
  Iff.rfl

theorem Stops.whole {p : Char → Bool} {text : List Char} (stops : Stops p text) :
    text.takeWhile p = [] ∧ text.dropWhile p = text := by
  cases text with
  | nil => exact ⟨rfl, rfl⟩
  | cons c rest =>
      rw [stops_cons] at stops
      rw [List.takeWhile_cons, List.dropWhile_cons, stops]
      exact ⟨rfl, rfl⟩

/-- Characters of a class before a text that begins with none are all that is taken. -/
theorem takeWhile_append_of_stops {p : Char → Bool} {run rest : List Char}
    (all : ∀ c ∈ run, p c = true) (stops : Stops p rest) :
    (run ++ rest).takeWhile p = run ∧ (run ++ rest).dropWhile p = rest := by
  obtain ⟨taken, left⟩ := stops.whole
  rw [List.takeWhile_append_of_pos all, List.dropWhile_append_of_pos all, taken, left]
  exact ⟨List.append_nil run, rfl⟩

namespace DigitRun

def ofText (text : List Char) (h : (text.takeWhile Char.isDigit).isEmpty = false) : DigitRun :=
  ⟨text.takeWhile Char.isDigit, List.isEmpty_eq_false_iff.mp h, fun _ => List.mem_takeWhile_imp⟩

theorem exists_cons (run : DigitRun) :
    ∃ c rest, run.text = c :: rest ∧ c.isDigit = true := by
  obtain ⟨c, rest, eq⟩ := List.exists_cons_of_ne_nil run.nonempty
  exact ⟨c, rest, eq, run.digits c (eq ▸ List.mem_cons_self)⟩

theorem isEmpty (run : DigitRun) : run.text.isEmpty = false :=
  List.isEmpty_eq_false_iff.mpr run.nonempty

theorem all_isDigit (run : DigitRun) : run.text.all Char.isDigit = true :=
  List.all_eq_true.mpr run.digits

theorem readSign_append (run : DigitRun) (after : List Char) :
    Numeral.readSign (run.text ++ after) = (false, run.text ++ after) := by
  obtain ⟨c, rest, eq, digit⟩ := run.exists_cons
  rw [eq, List.cons_append, Numeral.readSign]
  · rintro _ ⟨⟩
    cases digit
  · rintro _ ⟨⟩
    cases digit

end DigitRun

/-! ## Fractions and exponents -/

namespace ExponentText

def toInt (e : ExponentText) : Int :=
  if e.sign = ['-'] then -(Text.ofDigits e.power.text : Int) else Text.ofDigits e.power.text

theorem readSign_append (e : ExponentText) (after : List Char) :
    Numeral.readSign (e.sign ++ (e.power.text ++ after)) =
      (decide (e.sign = ['-']), e.power.text ++ after) := by
  rcases e.isSign with none | plus | minus
  · rw [none]
    exact e.power.readSign_append after
  · rw [plus]
    rfl
  · rw [minus]
    rfl

end ExponentText

namespace NumberText

def numeral (n : NumberText) : Numeral :=
  ⟨n.whole.text, n.fraction.map DigitRun.text, n.exponent.map ExponentText.toInt⟩

end NumberText

/-- The text cannot go on a number: its first character belongs to no name, and a point in front is
not followed by a digit. -/
structure EndsNumber (text : List Char) : Prop where
  name : Stops isNameChar text
  point : ∀ rest, text = '.' :: rest → Stops Char.isDigit rest

theorem isNameChar_iff {c : Char} :
    isNameChar c = true ↔ isNameStart c = true ∨ c.isDigit = true := by
  simp only [isNameChar, isNameStart, Char.isAlphanum, Bool.or_eq_true]
  tauto

theorem Stops.isDigit {text : List Char} (h : Stops isNameChar text) : Stops Char.isDigit text := by
  cases text with
  | nil => rfl
  | cons c rest =>
      rw [stops_cons] at h ⊢
      rw [Bool.eq_false_iff] at h ⊢
      exact fun digit => h (isNameChar_iff.mpr (.inr digit))

theorem takeExponent_append (exponent : Option ExponentText) {after : List Char}
    (stops : Stops isNameChar after) :
    takeExponent (exponentText exponent ++ after) = (exponent.map ExponentText.toInt, after) := by
  cases exponent with
  | none =>
      cases after with
      | nil => rfl
      | cons c rest =>
          have letter : ¬ (c = 'e' ∨ c = 'E') := by
            rintro (rfl | rfl) <;> cases stops
          show takeExponent (c :: rest) = _
          rw [takeExponent, if_neg letter]
          rfl
  | some e =>
      obtain ⟨taken, left⟩ := takeWhile_append_of_stops e.power.digits stops.isDigit
      rw [exponentText, List.cons_append, List.append_assoc, takeExponent, if_pos e.isLetter,
        e.readSign_append]
      dsimp only
      rw [taken, left, e.power.isEmpty]
      by_cases minus : e.sign = ['-'] <;> simp [ExponentText.toInt, minus]

theorem takeFraction_append (fraction : Option DigitRun) {rest : List Char}
    (stops : Stops Char.isDigit rest)
    (point : fraction = none → ∀ more, rest = '.' :: more → Stops Char.isDigit more) :
    takeFraction (fractionText fraction ++ rest) = (fraction.map DigitRun.text, rest) := by
  cases fraction with
  | none =>
      rw [fractionText, List.nil_append]
      unfold takeFraction
      split
      · rename_i more
        rw [(point rfl more rfl).whole.1]
        rfl
      · rfl
  | some run =>
      obtain ⟨taken, left⟩ := takeWhile_append_of_stops run.digits stops
      rw [fractionText, List.cons_append, takeFraction, taken, left, run.isEmpty]
      rfl

/-! ## Numbers -/

namespace NumberText

/-- What follows the whole part: an exponent is no digit, and its letter is no point. -/
theorem stops_exponentText (exponent : Option ExponentText) {after : List Char}
    (ends : EndsNumber after) :
    Stops Char.isDigit (exponentText exponent ++ after) ∧
      ∀ more, exponentText exponent ++ after = '.' :: more → Stops Char.isDigit more := by
  cases exponent with
  | none => exact ⟨ends.name.isDigit, ends.point⟩
  | some e =>
      rw [exponentText, List.cons_append]
      rcases e.isLetter with letter | letter
      · rw [letter]
        exact ⟨rfl, fun _ eq => nomatch eq⟩
      · rw [letter]
        exact ⟨rfl, fun _ eq => nomatch eq⟩

theorem stops_fractionText (fraction : Option DigitRun) {rest : List Char}
    (stops : Stops Char.isDigit rest) : Stops Char.isDigit (fractionText fraction ++ rest) := by
  cases fraction with
  | none => exact stops
  | some run => rfl

theorem takeNumber_eq (n : NumberText) {after : List Char} (ends : EndsNumber after) :
    takeNumber (n.text ++ after) = (n.numeral.toDecimal.toBinary64 false, after) := by
  obtain ⟨stops, point⟩ := stops_exponentText n.exponent ends
  obtain ⟨taken, left⟩ :=
    takeWhile_append_of_stops n.whole.digits (stops_fractionText n.fraction stops)
  rw [text, List.append_assoc, List.append_assoc, takeNumber, taken, left,
    takeFraction_append n.fraction stops fun _ => point]
  dsimp only
  rw [takeExponent_append n.exponent ends.name]
  rfl

theorem readExponent?_exponentText (exponent : Option ExponentText) :
    Numeral.readExponent? (exponentText exponent) = some (exponent.map ExponentText.toInt) := by
  cases exponent with
  | none => rfl
  | some e =>
      have sign := e.readSign_append []
      rw [List.append_nil] at sign
      rw [exponentText, Numeral.readExponent?, if_pos e.isLetter, sign]
      dsimp only
      rw [e.power.isEmpty, e.power.all_isDigit]
      by_cases minus : e.sign = ['-'] <;> simp [ExponentText.toInt, minus]

theorem read?_numeral (n : NumberText) : Numeral.read? n.text = some n.numeral := by
  obtain ⟨stops, point⟩ := stops_exponentText n.exponent ⟨stops_nil _, fun _ eq => nomatch eq⟩
  rw [List.append_nil] at stops point
  obtain ⟨taken, left⟩ :=
    takeWhile_append_of_stops n.whole.digits (stops_fractionText n.fraction stops)
  rw [Numeral.read?, text, taken, left, numeral]
  cases n.fraction with
  | none =>
      rw [fractionText, List.nil_append]
      split
      · rename_i more eq
        cases exponent : n.exponent with
        | none =>
            rw [exponent] at eq
            cases eq
        | some e =>
            rw [exponent, exponentText] at eq
            rcases e.isLetter with letter | letter
            · rw [letter] at eq
              cases eq
            · rw [letter] at eq
              cases eq
      · rw [readExponent?_exponentText]
        rfl
  | some run =>
      obtain ⟨taken', left'⟩ := takeWhile_append_of_stops run.digits stops
      simp only [fractionText, List.cons_append, taken', left', readExponent?_exponentText,
        Option.map_some]

theorem read?_eq (n : NumberText) :
    Binary64.read? n.text = some (n.numeral.toDecimal.toBinary64 false) := by
  have sign : Numeral.readSign n.text = (false, n.text) := n.whole.readSign_append _
  have nonempty : (n.numeral.whole ++ n.numeral.fraction.getD []).isEmpty = false := by
    obtain ⟨c, rest, eq, -⟩ := n.whole.exists_cons
    rw [numeral, eq]
    rfl
  rw [Binary64.read?, sign]
  dsimp only
  rw [n.read?_numeral]
  show (guard (!(n.numeral.whole ++ n.numeral.fraction.getD []).isEmpty) : Option Unit).bind _ = _
  rw [nonempty]
  rfl

theorem read?_text (n : NumberText) : Binary64.read? n.text = some n.value := by
  rw [value, read?_eq]
  rfl

theorem takeNumber_append (n : NumberText) {after : List Char} (ends : EndsNumber after) :
    takeNumber (n.text ++ after) = (n.value, after) := by
  rw [n.takeNumber_eq ends, value, n.read?_eq]
  rfl

end NumberText

/-! ## Only numbers are taken -/

theorem exists_fraction {text rest : List Char} {digits : Option (List Char)}
    (h : takeFraction text = (digits, rest)) :
    ∃ fraction : Option DigitRun, digits = fraction.map DigitRun.text ∧
      text = fractionText fraction ++ rest := by
  unfold takeFraction at h
  split at h
  · rename_i more
    split at h
    · cases h
      exact ⟨none, rfl, rfl⟩
    · rename_i nonempty
      cases h
      refine ⟨some (.ofText more (Bool.eq_false_iff.mpr nonempty)), rfl, ?_⟩
      exact congrArg _ (List.takeWhile_append_dropWhile).symm
  · cases h
    exact ⟨none, rfl, rfl⟩

theorem exists_sign (text : List Char) :
    ∃ sign, (sign = [] ∨ sign = ['+'] ∨ sign = ['-']) ∧ text = sign ++ (Numeral.readSign text).2 ∧
      (Numeral.readSign text).1 = decide (sign = ['-']) := by
  unfold Numeral.readSign
  split
  · exact ⟨['-'], .inr (.inr rfl), rfl, rfl⟩
  · exact ⟨['+'], .inr (.inl rfl), rfl, rfl⟩
  · exact ⟨[], .inl rfl, rfl, rfl⟩

theorem exists_exponent {text rest : List Char} {power : Option Int}
    (h : takeExponent text = (power, rest)) :
    ∃ exponent : Option ExponentText, power = exponent.map ExponentText.toInt ∧
      text = exponentText exponent ++ rest := by
  unfold takeExponent at h
  split at h
  · cases h
    exact ⟨none, rfl, rfl⟩
  · rename_i c more
    split at h
    · rename_i letter
      obtain ⟨sign, isSign, eq, negative⟩ := exists_sign more
      dsimp only at h
      split at h
      · cases h
        exact ⟨none, rfl, rfl⟩
      · rename_i nonempty
        cases h
        refine ⟨some ⟨c, letter, sign, isSign, .ofText _ (Bool.eq_false_iff.mpr nonempty)⟩, ?_, ?_⟩
        · rw [negative]
          by_cases minus : sign = ['-'] <;> simp [ExponentText.toInt, minus, DigitRun.ofText]
        · rw [exponentText, List.cons_append, List.append_assoc]
          refine congrArg _ (eq.trans (congrArg _ ?_))
          exact (List.takeWhile_append_dropWhile).symm
    · cases h
      exact ⟨none, rfl, rfl⟩

theorem exists_number {c : Char} {rest after : List Char} {x : Binary64} (digit : c.isDigit = true)
    (h : takeNumber (c :: rest) = (x, after)) :
    ∃ n : NumberText, c :: rest = n.text ++ after ∧ x = n.value := by
  have whole : ((c :: rest).takeWhile Char.isDigit).isEmpty = false := by
    rw [List.takeWhile_cons_of_pos digit]
    rfl
  obtain ⟨digits, middle, fraction_taken⟩ :
      ∃ digits middle, takeFraction ((c :: rest).dropWhile Char.isDigit) = (digits, middle) :=
    ⟨_, _, rfl⟩
  obtain ⟨power, last, exponent_taken⟩ : ∃ power last, takeExponent middle = (power, last) :=
    ⟨_, _, rfl⟩
  simp only [takeNumber, fraction_taken, exponent_taken] at h
  cases h
  obtain ⟨fraction, rfl, middle_eq⟩ := exists_fraction fraction_taken
  obtain ⟨exponent, rfl, last_eq⟩ := exists_exponent exponent_taken
  refine ⟨⟨.ofText _ whole, fraction, exponent⟩, ?_, ?_⟩
  · rw [NumberText.text, List.append_assoc, List.append_assoc, ← last_eq, ← middle_eq]
    exact (List.takeWhile_append_dropWhile).symm
  · rw [NumberText.value, NumberText.read?_eq]
    rfl

end Script

end TreePath
