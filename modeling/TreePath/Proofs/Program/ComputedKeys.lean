/-
# Computed keys — a scalar as the key of a sub-path and of a script

A sub-path and a script both turn a scalar of the document into a key, each in its own way: the one writes the
scalar as documents do, the other as scripts do.  A member of the document that holds a scalar can be used in
both ways, in `$[$.name]` and in `$[(@.name)]`.

`findSame_of_computed` says when the two lead to the same child of every value: exactly if the scalar is
`WrittenAlike`, with one text in documents and in scripts.  It also says which numbers these are: integers are
if they are not large, and floats are not if they are whole or documents write them with an exponent.

* `exists_keys` has the two keys of a scalar, and `child?_eq_iff` says that keys lead to the same children
  exactly if they have the same text.
* The two paths are parsed and compiled for every name that may stand in both (`parse_subPath`,
  `parse_script`).
* `exists_subPath` and `exists_script` run them.

`computed_keys_differ` is a document in which they find different members.
-/
import TreePath.Proofs.Program.Lookup
import TreePath.Proofs.Program.Regular
import TreePath.Proofs.Script.Access
import TreePath.Proofs.Script.NumberTexts

namespace TreePath

/-! ## The keys of a scalar -/

/-- The scalar has one text in documents and in scripts. -/
def Json.WrittenAlike : Json → Prop
  | .num n => n.WrittenAlike
  | _ => True

namespace Key

/-- Keys lead to the same child of every value exactly if they have the same text. -/
theorem child?_eq_iff {k k' : Key} (fits : k.Fits) (fits' : k'.Fits) :
    (∀ value, k.child? value = k'.child? value) ↔ k.text = k'.text := by
  constructor
  · intro same
    -- An object with one member tells the keys apart.
    have owner := same (.obj [(k.text, .null)])
    by_contra differ
    have found : k.child? (.obj [(k.text, .null)]) = some .null := by
      simp [child?, position?, Json.childAt?]
    have missing : k'.child? (.obj [(k.text, .null)]) = none := by
      simp [child?, position?, differ]
    rw [found, missing] at owner
    cases owner
  · intro same value
    rw [child?, child?, position?_eq_of_text fits fits' same]

end Key

/-- The two keys of a scalar: as a value that a path finds, and as the result of a script. -/
theorem exists_keys {v : Json} (scalar : v.isContainer = false) (proper : v.Proper) :
    ∃ key key', Key.ofScalar? v = some key ∧
      (∀ place, Script.operandKey? (.ofJson place v) = some key') ∧ key.Fits ∧ key'.Fits ∧
      (key.text = key'.text ↔ v.WrittenAlike) := by
  have bare : ∀ text : String, Key.Fits (.ofBare text) ∧ text = (Key.ofBare text).text :=
    fun text => ⟨Key.fits_ofBare text, (Key.text_canonical (.name text)).symm⟩
  cases v with
  | null => exact ⟨_, _, rfl, fun _ => rfl, trivial, (bare _).1, iff_of_true (bare _).2 trivial⟩
  | bool b =>
      cases b
      · exact ⟨_, _, rfl, fun _ => rfl, trivial, (bare _).1, iff_of_true (bare _).2 trivial⟩
      · exact ⟨_, _, rfl, fun _ => rfl, trivial, (bare _).1, iff_of_true (bare _).2 trivial⟩
  | str s => exact ⟨_, _, rfl, fun _ => rfl, trivial, (bare s).1, iff_of_true (bare s).2 trivial⟩
  | num n =>
      -- Only numbers come to their two keys in different ways.
      obtain ⟨key, found, text⟩ := Number.exists_ofScalar? n
      have fits : (Script.numberKey n.toBinary64).Fits :=
        @Script.fits_of_operandKey? (.number n.toBinary64) _ rfl
      refine ⟨key, _, found, fun _ => rfl, Key.fits_of_ofScalar? proper found, fits, ?_⟩
      rw [text, Script.text_numberKey]
      exact (Number.writtenAlike_iff proper).symm
  | arr items => cases scalar
  | obj members => cases scalar

/-! ## Paths and scripts that are one member -/

namespace Script

theorem balanced_of_isInk {text : List Char} (ink : ∀ c ∈ text, isInk c = true) :
    Quote.Balanced text ∧ Text.Trimmed text := by
  have both : ∀ c ∈ text, Quote.isPlain c = true ∧ Text.isBlank c = false := by
    intro c mem
    simpa [isInk] using ink c mem
  exact ⟨Quote.balanced_of_plain fun c mem => (both c mem).1,
    Text.trimmed_of_forall fun c mem => (both c mem).2⟩

namespace NameText

variable (name : NameText)

theorem ne_of_mem {c : Char} (mem : c ∈ name.text) {d : Char} (other : isNameChar d = false) :
    c ≠ d := by
  rintro rfl
  rw [name.all_isNameChar c mem] at other
  cases other

/-- A name is no numeral, so as a member it is the name of a child. -/
theorem member :
    Subscript.member name.text = .ok (.property (.name (String.ofList name.text))) := by
  have noCall : ['(', ')'].isSuffixOf? name.text = none := by
    refine Subscript.isSuffixOf?_call fun last => ?_
    exact name.ne_of_mem (List.mem_of_getLast? last) rfl rfl
  have plain : name.text.any (· ∈ ['(', ')']) = false := by
    rw [List.any_eq_false]
    intro c mem
    simp [name.ne_of_mem mem (d := '(') rfl, name.ne_of_mem mem (d := ')') rfl]
  have noIndex : Key.canonicalIndex? name.text = none := by
    cases found : Key.canonicalIndex? name.text with
    | none => rfl
    | some position =>
        have first : name.first ∈ Nat.toDigits 10 position := by
          rw [← (Key.canonicalIndex?_eq_some_iff.mp found).1]
          exact List.mem_cons_self
        have digit := Text.isDigit_of_mem_toDigits first
        rw [not_isDigit_of_isNameStart name.isStart] at digit
        cases digit
  have wildcard : name.text ≠ ['*'] := by
    intro same
    exact name.ne_of_mem (same ▸ List.mem_cons_self) rfl rfl
  rw [Subscript.member, if_neg (by simp [text]), if_neg wildcard, noCall]
  dsimp only
  rw [plain, Key.ofBare, String.toList_ofList, noIndex]
  rfl

theorem parse_dotted :
    Step.parse (String.ofList ('$' :: '.' :: name.text)) =
      .ok [.root, .property (.name (String.ofList name.text))] := by
  have root : Scan.Settled [.root] ⟨1, .root, [.root]⟩ := .root
  have plain : ∀ c ∈ name.text, Scan.isMember c = true := by
    intro c mem
    have ne := fun d => name.ne_of_mem mem (d := d)
    simp [Scan.isMember, Scan.isSeparator, ne '.' rfl, ne '[' rfl, ne '^' rfl, ne ']' rfl]
  obtain ⟨s, scans, settled⟩ := root.dotted (List.cons_ne_nil _ _) plain name.member
  exact Step.parse_eq_ok_iff.mpr
    ⟨Scan.not_blank_root _, Scan.steps_eq_ok_iff.mpr ⟨s, .cons rfl scans, settled.finish⟩⟩

theorem parse_subPath :
    Step.parse ("$[" ++ String.ofList ('$' :: '.' :: name.text) ++ "]") =
      .ok [.root, .subPath (String.ofList ('$' :: '.' :: name.text))] := by
  have ink : ∀ c ∈ '$' :: '.' :: name.text, isInk c = true := by
    simp only [List.forall_mem_cons]
    exact ⟨by decide, by decide, fun c mem => isInk_of_isNameChar (name.all_isNameChar c mem)⟩
  obtain ⟨balanced, trimmed⟩ := balanced_of_isInk ink
  have text : "$[" ++ String.ofList ('$' :: '.' :: name.text) ++ "]" =
      String.ofList ('$' :: '[' :: ('$' :: '.' :: name.text ++ [']'])) := by
    rw [← String.toList_inj]
    simp
  rw [text]
  refine Step.parse_bracket balanced ?_
  rw [Text.trim_eq_self trimmed]
  exact Subscript.classify_rooted (.inl rfl)

theorem parse_script :
    Step.parse ("$[(" ++ String.ofList ('@' :: '.' :: name.text) ++ ")]") =
      .ok [.root, .script (String.ofList ('@' :: '.' :: name.text))] := by
  have ink : ∀ c ∈ '@' :: '.' :: name.text, isInk c = true := by
    simp only [List.forall_mem_cons]
    exact ⟨by decide, by decide, fun c mem => isInk_of_isNameChar (name.all_isNameChar c mem)⟩
  obtain ⟨balanced, trimmed⟩ := balanced_of_isInk ink
  exact Step.parse_parenthesized balanced trimmed

theorem compile_member :
    compile (String.ofList ('@' :: '.' :: name.text)) =
      .ok ⟨String.ofList ('@' :: '.' :: name.text),
        .member .value (String.ofList name.text)⟩ := by
  let value : Lexeme := ⟨_, _, .value⟩
  let member : Lexeme := ⟨_, _, .member name⟩
  refine compile_eq_ok_iff.mpr ⟨rfl, parse_eq_ok_iff.mpr ⟨[value, member], _, ?_, rfl, rfl⟩⟩
  have spaced := Spaced.lexeme value (Spaced.lexeme member .nil)
  rw [List.append_nil] at spaced
  rw [String.toList_ofList]
  exact spaced

end NameText

end Script

/-! ## The member of a document -/

theorem Json.Proper.exists_position? {members : List (String × Json)}
    (proper : (Json.obj members).Proper) {n : String} {v : Json} (mem : (n, v) ∈ members) :
    ∃ position, (Key.name n).position? (.obj members) = some position ∧
      (Json.obj members).childAt? position = some v := by
  obtain ⟨position, found⟩ := List.mem_iff_getElem?.mp mem
  have listed : (Json.obj members).children[position]? = some (.name n, v) := by
    simp [Json.children, found]
  exact ⟨position, proper.position?_of_listed listed, Json.childAt?_of_children listed⟩

theorem Trace.keysOf_single {v : Json} {key : Key} (found : Key.ofScalar? v = some key)
    (labels : List Label) : keysOf [⟨labels, v⟩] = [key] := by
  have listed : (Key.ofScalar? v).toList = [key] := by
    rw [found]
    rfl
  rw [keysOf, List.flatMap_singleton]
  split
  · rename_i items eq
    change v = .arr items at eq
    rw [eq] at found
    cases found
  · exact listed

/-- A script whose value is a scalar selects the key of that scalar, wherever it is. -/
theorem Script.key_of_evaluate {script : Script} {value : Json} {path : Option String}
    {place : List Nat} {v : Json} {key : Key}
    (evaluated : script.evaluate value path = .ok (.ofJson place v))
    (selected : operandKey? (.ofJson place v) = some key) : script.key value path = .ok key := by
  refine bind_eq_ok_iff.mpr ⟨_, evaluated, ?_⟩
  rw [selected]
  rfl

namespace Program

open Trace

section member

variable {name : Script.NameText} {members : List (String × Json)} {v : Json} {key : Key}
  (proper : (Json.obj members).Proper) (mem : (String.ofList name.text, v) ∈ members)

include proper mem

theorem records_member (context : Option Registry) (source : String) (steps : List Step)
    (options : Options) :
    (assemble source steps options [.property (.name (String.ofList name.text))]).records
      (.obj members) context = .ok [⟨[.root, .key (.name (String.ofList name.text))], v⟩] := by
  obtain ⟨position, named, found⟩ := proper.exists_position? mem
  have child : (Node.ofDocument (.obj members)).child? (.name (String.ofList name.text)) =
      some ((Node.ofDocument (.obj members)).below position v) := by
    show ((Key.name _).position? (.obj members) >>= _) = _
    rw [named]
    show ((Json.obj members).childAt? position >>= _) = _
    rw [found]
    rfl
  rw [← map_located, located_property, childMatch, child]
  rfl

theorem exists_subPath (found : Key.ofScalar? v = some key) (options : Options) :
    ∃ program, compile ("$[" ++ String.ofList ('$' :: '.' :: name.text) ++ "]") options =
        .ok program ∧
      ∀ context, program.located (.obj members) context = .ok (childMatch (.obj members) key) := by
  have compiled : Op.compile options (.subPath (String.ofList ('$' :: '.' :: name.text))) = _ :=
    map_eq_ok_iff.mpr ⟨_, compile_single name.parse_dotted (by simp) rfl, rfl⟩
  refine ⟨_, compile_single name.parse_subPath (by simp) compiled, ?_⟩
  intro context
  exact located_subPath (records_member proper mem context _ _ _) (keysOf_single found _) _ _ _

theorem exists_script
    (selected : ∀ place, Script.operandKey? (.ofJson place v) = some key) (options : Options) :
    ∃ program, compile ("$[(" ++ String.ofList ('@' :: '.' :: name.text) ++ ")]") options =
        .ok program ∧
      ∀ context, program.located (.obj members) context = .ok (childMatch (.obj members) key) := by
  obtain ⟨position, named, found⟩ := proper.exists_position? mem
  have compiled : Op.compile options (.script (String.ofList ('@' :: '.' :: name.text))) = _ :=
    map_eq_ok_iff.mpr ⟨_, name.compile_member, rfl⟩
  refine ⟨_, compile_single name.parse_script (by simp) compiled, ?_⟩
  intro context
  refine located_script ?_ _ _ _
  intro path
  have child : Operand.child [] (.obj members) (String.ofList name.text) = .ofJson [position] v := by
    rw [Operand.child, Operand.childPosition?_eq, named]
    dsimp only
    rw [found]
    rfl
  refine Script.key_of_evaluate ?_ (selected [position])
  rw [← child]
  rfl

end member

/-- A sub-path and a script that both compute their key from one scalar member lead to the same child of
every value exactly if the scalar has one text in documents and in scripts.  An integer has one if it is not
large, and a float has two if it is whole or documents write an exponent. -/
theorem findSame_of_computed {members : List (String × Json)} (proper : (Json.obj members).Proper)
    (name : Script.NameText) {v : Json} (mem : (String.ofList name.text, v) ∈ members)
    (scalar : v.isContainer = false) (options : Options) :
    ∃ pathed scripted key key',
      compile ("$[" ++ String.ofList ('$' :: '.' :: name.text) ++ "]") options = .ok pathed ∧
      compile ("$[(" ++ String.ofList ('@' :: '.' :: name.text) ++ ")]") options =
        .ok scripted ∧
      Key.ofScalar? v = some key ∧
      (∀ (script : Script) value path place,
        script.evaluate value path = .ok (.ofJson place v) → script.key value path = .ok key') ∧
      (∀ context,
        pathed.located (.obj members) context = .ok (childMatch (.obj members) key) ∧
        scripted.located (.obj members) context = .ok (childMatch (.obj members) key')) ∧
      ((∀ value, key.child? value = key'.child? value) ↔ v.WrittenAlike) ∧
      (v.WrittenAlike → ∀ context, FindSame (.obj members) context pathed scripted key key') ∧
      (∀ n : Int, v = .num (.integer n) → n.natAbs ≤ 2 ^ 53 → v.WrittenAlike) ∧
      ∀ x : Binary64, v = .num (.float x) →
        (∃ n, x.toInt? = some n ∧ n.natAbs < 10 ^ 21) ∨ 'e' ∈ (Number.float x).write.toList →
          ¬ v.WrittenAlike := by
  have value : v.Proper := Json.proper_of_mem_members proper.2 mem
  obtain ⟨key, key', found, selected, fits, fits', alike⟩ := exists_keys scalar value
  obtain ⟨pathed, compiled, reached⟩ := exists_subPath proper mem found options
  obtain ⟨scripted, compiled', reached'⟩ := exists_script proper mem selected options
  refine ⟨pathed, scripted, key, key', compiled, compiled', found, ?_, ?_, ?_, ?_, ?_, ?_⟩
  · intro script value path place evaluated
    exact Script.key_of_evaluate evaluated (selected place)
  · exact fun context => ⟨reached context, reached' context⟩
  · exact (Key.child?_eq_iff fits fits').trans alike
  · intro written context
    exact findSame_of_located (reached context) (reached' context) fits fits' (alike.mpr written)
  · rintro n rfl small
    exact Number.writtenAlike_of_le small
  · rintro x rfl (⟨n, whole, small⟩ | exponent)
    · exact Number.not_writtenAlike_of_whole whole small
    · exact Number.not_writtenAlike_of_exponent exponent

/-- A decimal fraction is the same name as a value of the document and as the result of a script. -/
theorem findSame_of_computed_fraction :
    let fraction := Json.num (.float (.ofQuotient false (3 * Binary64.unitsPerOne) 2))
    let document := Json.obj [("k", fraction), ("1.5", .str "x")]
    document.Proper ∧ fraction.isContainer = false ∧ fraction.WrittenAlike ∧
      ∃ pathed scripted, compile "$[$.k]" .default = .ok pathed ∧
        compile "$[(@.k)]" .default = .ok scripted ∧
        pathed.records document none = .ok [⟨[.root, .key (.name "1.5")], .str "x"⟩] ∧
        scripted.records document none = .ok [⟨[.root, .key (.name "1.5")], .str "x"⟩] := by
  intro fraction document
  let k : Script.NameText := ⟨'k', [], by decide, by simp⟩
  have finite : (Binary64.ofQuotient false (3 * Binary64.unitsPerOne) 2).isFinite = true := by
    decide +kernel
  have proper : document.Proper := ⟨by decide, finite, trivial, trivial⟩
  have alike : fraction.WrittenAlike := by
    show (Number.float _).write = Script.numberText _
    decide +kernel
  have written : Key.ofScalar? fraction = some (.name "1.5") := by
    decide +kernel
  have selected : Script.operandKey? (.ofJson [] fraction) = some (.name "1.5") := by
    decide +kernel
  obtain ⟨pathed, scripted, key, key', compiled, compiled', found, computed, reached, -, same, -⟩ :=
    findSame_of_computed proper k List.mem_cons_self rfl .default
  have named : key = .name "1.5" := Option.some.inj (found.symm.trans written)
  have named' : key' = .name "1.5" := by
    have scalar := computed ⟨"@", .value⟩ fraction none [] rfl
    exact Except.ok.inj (scalar.symm.trans (Script.key_of_evaluate rfl selected))
  subst named named'
  have records : pathed.records document none =
      .ok [⟨[.root, .key (.name "1.5")], .str "x"⟩] := by
    rw [← map_located, (reached none).1]
    rfl
  refine ⟨proper, rfl, alike, pathed, scripted, compiled, compiled', records, ?_⟩
  rcases same alike none with ⟨none, -⟩ | ⟨child, _, one, one', -⟩
  · cases records.symm.trans none
  · cases records.symm.trans one
    exact one'

/-- The double 1.0 is the name `1.0` as a value of the document and the position 1 as the result of a
script. -/
theorem computed_keys_differ :
    let document := Json.obj [("k", .num (.float (.ofInt 1))), ("1", .str "x")]
    ∃ pathed scripted, compile "$[$.k]" .default = .ok pathed ∧
      compile "$[(@.k)]" .default = .ok scripted ∧
      pathed.records document none = .ok [] ∧
      scripted.records document none = .ok [⟨[.root, .key (.index 1)], .str "x"⟩] := by
  intro document
  let k : Script.NameText := ⟨'k', [], by decide, by simp⟩
  have finite : (Binary64.ofInt 1).isFinite = true := by decide +kernel
  have proper : document.Proper := ⟨by decide, finite, trivial, trivial⟩
  have found : Key.ofScalar? (.num (.float (.ofInt 1))) = some (.name "1.0") := by decide +kernel
  have selected : Script.numberKey (.ofInt 1) = .index 1 := by decide +kernel
  have mem : (String.ofList k.text, Json.num (.float (.ofInt 1))) ∈
      [("k", .num (.float (.ofInt 1))), ("1", .str "x")] := List.mem_cons_self
  obtain ⟨pathed, compiled, reached⟩ := exists_subPath proper mem found .default
  obtain ⟨scripted, compiled', reached'⟩ :=
    exists_script proper mem (fun _ => congrArg some selected) .default
  refine ⟨pathed, scripted, compiled, compiled', ?_, ?_⟩
  · rw [← map_located, reached]
    rfl
  · rw [← map_located, reached']
    rfl

end Program

end TreePath
