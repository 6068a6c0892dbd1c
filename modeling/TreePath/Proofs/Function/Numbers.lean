/-
# Numbers — the standard functions that compute numbers

Rounding keeps a number finite, and a finite number has a JSON value.  So a size, a rounding and an absolute
value is a number wherever the function applies at all, and the conversion to a number returns it as it is.

Only the conversion itself can leave the finite numbers.  There are texts of infinities, of the undefined
number and of decimals beyond the largest float, and it makes null of them: `NamesNoNumber` is the condition,
and `number_of_namesNoNumber` what comes of it.  Null is not what it converts to itself.

`Numeric` has the shapes of these functions, so that `yields_number` is a proof by three cases and not by
names.  It says for every function and every value of JSON that the call fails with an evaluation fault or
yields a number (`Yields`), and names the exception.

The least integer is a case of its own: it has no absolute value among the integers, and yields a float.
-/
import TreePath.Function.Standard
import TreePath.Proofs.Binary64.Rounding

namespace TreePath

/-! ## Numbers of JSON -/

namespace Json

def IsNumber : Json → Prop
  | .num (.integer _) => True
  | .num (.float x) => x.isFinite = true
  | _ => False

/-- The text of a number that is not finite. -/
def NamesNoNumber (value : Json) : Prop :=
  ∃ s x, value = .str s ∧ Binary64.readNamed? (Text.trim s.toList) = some x ∧ x.isFinite = false

theorem isNumber_of_proper {n : Number} (proper : n.Proper) : (Json.num n).IsNumber := by
  cases n with
  | integer _ => trivial
  | float _ => exact proper

theorem IsNumber.exists_num {value : Json} (number : value.IsNumber) : ∃ n, value = .num n := by
  cases value with
  | num n => exact ⟨n, rfl⟩
  | null | bool _ | str _ | arr _ | obj _ => cases number

end Json

theorem Binary64.isFinite_of_toInt? {x : Binary64} {n : Int} (whole : x.toInt? = some n) :
    x.isFinite = true := by
  cases x with
  | finite _ _ => rfl
  | nan | infinite _ => cases whole

theorem Json.isNumber_ofBinary64 {x : Binary64} (finite : x.isFinite = true) :
    (Json.ofBinary64 x).IsNumber := by
  rw [Json.ofBinary64]
  cases x.toInt? with
  | none =>
      dsimp only
      rw [if_pos finite]
      exact finite
  | some n =>
      dsimp only
      split
      · trivial
      · exact finite

theorem Json.ofBinary64_of_infinite {x : Binary64} (infinite : x.isFinite = false) :
    Json.ofBinary64 x = .null := by
  cases x with
  | finite _ _ => cases infinite
  | nan | infinite _ => rfl

/-! ## The functions -/

namespace Standard

/-- The functions that compute numbers. -/
def numericNames : List String :=
  ["length", "round", "floor", "ceil", "abs", "number"]

/-- What comes of a call that yields a number if it applies to the value. -/
inductive Yields (name : String) (value : Json) : Except Fault Json → Prop
  | refused : Yields name value (.error (.inapplicable name value.kind))
  | number {result : Json} (number : result.IsNumber) : Yields name value (.ok result)

/-- The shapes of the functions that compute numbers. -/
inductive Numeric : String → (Json → Except Fault Json) → Prop
  | length : Numeric "length" length
  | rounding {name : String} {round : Binary64 → Binary64} (other : name ≠ "number")
      (keeps : ∀ x : Binary64, x.isFinite = true → (round x).isFinite = true) :
      Numeric name (rounding name round)
  | abs : Numeric "abs" abs
  | number : Numeric "number" number

theorem numeric_of_mem {name : String} {f : Json → Except Fault Json} (listed : (name, f) ∈ functions)
    (numeric : name ∈ numericNames) : Numeric name f := by
  simp only [numericNames, List.mem_cons, List.not_mem_nil, or_false] at numeric
  obtain rfl | rfl | rfl | rfl | rfl | rfl := numeric <;> simp [functions] at listed <;> subst listed
  · exact .length
  · exact .rounding (by simp) fun _ => Binary64.isFinite_round
  · exact .rounding (by simp) fun _ => Binary64.isFinite_floor
  · exact .rounding (by simp) fun _ => Binary64.isFinite_ceil
  · exact .abs
  · exact .number

section

variable {n : Number} (number : (Json.num n).IsNumber)

include number

theorem exists_rounding {round : Binary64 → Binary64}
    (keeps : ∀ x : Binary64, x.isFinite = true → (round x).isFinite = true) (name : String) :
    ∃ result, rounding name round (.num n) = .ok result ∧ result.IsNumber := by
  cases n with
  | integer _ => exact ⟨_, rfl, trivial⟩
  | float x => exact ⟨_, rfl, Json.isNumber_ofBinary64 (keeps x number)⟩

theorem exists_abs : ∃ result, abs (.num n) = .ok result ∧ result.IsNumber := by
  cases n with
  | float x => exact ⟨_, rfl, Json.isNumber_ofBinary64 (Binary64.isFinite_abs number)⟩
  | integer n =>
      by_cases least : n = Number.minInteger
      · have word : n.natAbs < 2 ^ 64 := by
          rw [least]
          decide
        obtain ⟨_, whole, _⟩ := Binary64.exists_toInt?_ofInt word
        refine ⟨_, if_pos least, Json.isNumber_ofBinary64 (Binary64.isFinite_abs ?_)⟩
        exact Binary64.isFinite_of_toInt? whole
      · exact ⟨_, if_neg least, trivial⟩

end

theorem number_of_isNumber {value : Json} (number : value.IsNumber) :
    Standard.number value = .ok value := by
  obtain ⟨n, rfl⟩ := number.exists_num
  rfl

theorem number_of_namesNoNumber {value : Json} (named : value.NamesNoNumber) :
    Standard.number value = .ok .null := by
  obtain ⟨s, x, rfl, read, infinite⟩ := named
  rw [Standard.number, read]
  exact congrArg Except.ok (Json.ofBinary64_of_infinite infinite)

example : Standard.number (.str " -1e999 ") = .ok .null := by
  rfl

namespace Numeric

variable {name : String} {f : Json → Except Fault Json} {value : Json}

/-- A function that computes numbers refuses a value or yields a number, unless it converts the text of
no number. -/
theorem yields (numeric : Numeric name f) (proper : value.Proper)
    (named : name = "number" → ¬value.NamesNoNumber) : Yields name value (f value) := by
  cases numeric with
  | length =>
      cases value with
      | arr _ | obj _ | str _ => exact .number trivial
      | null | bool _ | num _ => exact .refused
  | rounding _ keeps =>
      cases value with
      | num n =>
          obtain ⟨result, rounded, number⟩ := exists_rounding (Json.isNumber_of_proper proper) keeps name
          rw [rounded]
          exact .number number
      | null | bool _ | str _ | arr _ | obj _ => exact .refused
  | abs =>
      cases value with
      | num n =>
          obtain ⟨result, computed, number⟩ := exists_abs (Json.isNumber_of_proper proper)
          rw [computed]
          exact .number number
      | null | bool _ | str _ | arr _ | obj _ => exact .refused
  | number =>
      cases value with
      | num n => exact .number (Json.isNumber_of_proper proper)
      | bool _ | null => exact .number trivial
      | arr _ | obj _ => exact .refused
      | str s =>
          -- Here alone a float can come from outside of the finite numbers.
          rw [Standard.number]
          cases read : Binary64.readNamed? (Text.trim s.toList) with
          | none => exact .refused
          | some x =>
              cases finite : x.isFinite with
              | true => exact .number (Json.isNumber_ofBinary64 finite)
              | false => exact absurd ⟨s, x, rfl, read, finite⟩ (named rfl)

/-- No function that computes numbers refuses a number, but for the size. -/
theorem exists_of_isNumber (numeric : Numeric name f) (other : name ≠ "length")
    (number : value.IsNumber) : ∃ result, f value = .ok result ∧ result.IsNumber := by
  obtain ⟨n, rfl⟩ := number.exists_num
  cases numeric with
  | length => exact absurd rfl other
  | rounding _ keeps => exact exists_rounding number keeps name
  | abs => exact exists_abs number
  | number => exact ⟨_, rfl, number⟩

theorem eq_number (numeric : Numeric name f) (named : name = "number") : f = Standard.number := by
  cases numeric with
  | rounding other _ => exact absurd named other
  | number => rfl
  | length | abs => simp at named

end Numeric

/-- **The functions that compute numbers yield numbers**: on every value of JSON such a function fails with
an evaluation fault or yields a number, which the conversion returns as it is and every one of them
takes again, but for the size.  The exception is the conversion of a text of no number, which is null. -/
theorem yields_number {name : String} {f : Json → Except Fault Json} (listed : (name, f) ∈ functions)
    (numeric : name ∈ numericNames) {value : Json} (proper : value.Proper) :
    (name = "number" ∧ value.NamesNoNumber → f value = .ok .null) ∧
      (¬(name = "number" ∧ value.NamesNoNumber) →
        Yields name value (f value) ∧ (∀ fault, f value = .error fault → fault.kind = .evaluation) ∧
        ∀ result, f value = .ok result →
          Standard.number result = .ok result ∧
          ∀ other g, (other, g) ∈ functions → other ∈ numericNames → other ≠ "length" →
            ∃ next, g result = .ok next ∧ next.IsNumber) := by
  have shape := numeric_of_mem listed numeric
  constructor
  · rintro ⟨called, named⟩
    rw [shape.eq_number called]
    exact number_of_namesNoNumber named
  · intro regular
    have yields := shape.yields proper fun called named => regular ⟨called, named⟩
    refine ⟨yields, ?_, ?_⟩
    · intro fault failed
      rw [failed] at yields
      cases yields
      rfl
    · intro result computed
      rw [computed] at yields
      cases yields with
      | number number =>
          refine ⟨number_of_isNumber number, fun other g listed' numeric' sized => ?_⟩
          exact (numeric_of_mem listed' numeric').exists_of_isNumber sized number

/-- The least integer has no absolute value among the integers, and yields a float. -/
theorem yields_number_minInteger :
    ("abs", abs) ∈ functions ∧ "abs" ∈ numericNames ∧ (Json.num (.integer Number.minInteger)).Proper ∧
      Yields "abs" (.num (.integer Number.minInteger)) (abs (.num (.integer Number.minInteger))) := by
  have listed : ("abs", abs) ∈ functions := by simp [functions]
  have numeric : "abs" ∈ numericNames := by simp [numericNames]
  have proper : (Json.num (.integer Number.minInteger)).Proper := by
    show Number.minInteger ≤ Number.minInteger ∧ Number.minInteger < Number.integerBound
    decide
  refine ⟨listed, numeric, proper, ((yields_number listed numeric proper).2 ?_).1⟩
  simp

/-- The names of the infinities are texts, and their conversion neither fails nor is a number; and null is
not converted to itself. -/
theorem number_infinity :
    Standard.number (.str "inf") = .ok .null ∧
      ¬Yields "number" (.str "inf") (Standard.number (.str "inf")) ∧
      Standard.number .null ≠ .ok .null := by
  have converted : Standard.number (.str "inf") = .ok .null := by rfl
  refine ⟨converted, ?_, ?_⟩
  · rw [converted]
    rintro (_ | number)
    exact number
  · simp [Standard.number, Json.ofNat]

end Standard

end TreePath
