/-
# Canonical — the path that is written for a location is read back as that location

Reading cannot tell a name that is a canonical numeral from the position it denotes: both are written as the
position.  The canonical form of a key is the one that reading gives (`canonical`).  It leads to the same
child of every value (`position?_canonical`) and is written the same (`fragment_canonical`), so replacing
keys by it loses nothing that a path can tell.

`parse_render` is the round trip: the canonical path of a location without calls has one step for each label,
with its key in canonical form.  It is an instance of the general theorem on spelled paths, since the
fragment of a key is one of the spellings that are known to be read back (`exists_spelling`).

A position has a numeral only if it is below the bound.  Keys that were read fit (`Step.keysFit_of_parse`),
whatever the way they were written.
-/
import TreePath.Proofs.Path.Produced
import TreePath.Proofs.Path.Spelling

namespace TreePath

namespace Key

/-- A position is below the bound. -/
def Fits : Key → Prop
  | .index position => position < positionBound
  | .name _ => True

/-- The form of a key that reading its text gives. -/
def canonical (k : Key) : Key :=
  .ofBare k.text

theorem fits_ofBare (token : String) : (ofBare token).Fits := by
  rw [ofBare]
  split
  · rename_i position found
    exact (canonicalIndex?_eq_some_iff.mp found).2
  · trivial

theorem index?_canonical {k : Key} (h : k.Fits) : k.canonical.index? = k.index? := by
  cases k with
  | index position =>
      have found : canonicalIndex? (Text.decimal position).toList = some position := by
        rw [Text.toList_decimal]
        exact canonicalIndex?_toDigits h
      rw [canonical, text, ofBare, found]
  | name name =>
      rw [canonical, text, ofBare]
      cases found : canonicalIndex? name.toList with
      | none => rfl
      | some position => exact found.symm

theorem text_canonical (k : Key) : k.canonical.text = k.text := by
  rw [canonical, ofBare]
  cases found : canonicalIndex? k.text.toList with
  | none => rfl
  | some position =>
      rw [← String.toList_inj]
      show (Text.decimal position).toList = _
      rw [Text.toList_decimal, (canonicalIndex?_eq_some_iff.mp found).1]

theorem position?_canonical {k : Key} (h : k.Fits) (value : Json) :
    k.canonical.position? value = k.position? value := by
  simp only [position?]
  rw [index?_canonical h, text_canonical]

theorem fragment_canonical {k : Key} (h : k.Fits) :
    (Label.key k.canonical).fragment = (Label.key k).fragment := by
  rw [Label.fragment, index?_canonical h, text_canonical, Label.fragment]

theorem exists_spelling {k : Key} (h : k.Fits) :
    ∃ spelling : KeySpelling, spelling.key = k.canonical ∧
      (Label.key k).fragment.toList = '[' :: (spelling.text ++ [']']) := by
  rw [← fragment_canonical h, Label.fragment]
  cases found : canonicalIndex? k.text.toList with
  | none =>
      have canonical : k.canonical = .name k.text := by rw [canonical, ofBare, found]
      refine ⟨.single k.text, canonical.symm, ?_⟩
      rw [canonical, index?, found, if_neg (by simp), String.toList_append, String.toList_append]
      rfl
  | some position =>
      have canonical : k.canonical = .index position := by rw [canonical, ofBare, found]
      refine ⟨.decimal position (canonicalIndex?_eq_some_iff.mp found).2, canonical.symm, ?_⟩
      rw [canonical, index?, Option.isSome_some, if_pos rfl, String.toList_append, String.toList_append, text,
        Text.toList_decimal]
      rfl

end Key

namespace Subscript

theorem fits_of_key {item : List Char} {k : Key} (h : key item = .ok k) : k.Fits := by
  simp only [key] at h
  split at h
  · obtain ⟨_, _, rfl⟩ := map_eq_ok_iff.mp h
    trivial
  · obtain ⟨_, _, rfl⟩ := map_eq_ok_iff.mp h
    trivial
  · split at h
    · cases h
    · cases h
      exact Key.fits_ofBare _

theorem fits_of_listKey {item : List Char} {k : Key} (h : listKey item = .ok k) : k.Fits := by
  simp only [listKey] at h
  split at h
  · cases h
  · cases h
  · exact fits_of_key h

end Subscript

namespace Step

def KeysFit : Step → Prop
  | .property k => k.Fits
  | .propertyList keys => ∀ k ∈ keys, k.Fits
  | _ => True

end Step

namespace Subscript

theorem keysFit_of_selector {content : List Char} {step : Step} (h : selector content = .ok step) :
    step.KeysFit := by
  rw [selector] at h
  split at h
  · obtain ⟨keys, found, rfl⟩ := map_eq_ok_iff.mp h
    intro k mem
    obtain ⟨_, _, read⟩ := exists_of_mem_mapM found mem
    exact fits_of_listKey read
  · split at h
    · obtain ⟨_, _, rfl⟩ := map_eq_ok_iff.mp h
      trivial
    · obtain ⟨k, read, rfl⟩ := map_eq_ok_iff.mp h
      exact fits_of_key read

theorem keysFit_of_classify {content : List Char} {step : Step} (h : classify content = .ok step) :
    step.KeysFit := by
  rw [classify] at h
  split at h
  · cases h
  split at h
  · cases h
    trivial
  split at h
  · cases h
    trivial
  split at h
  · cases h
    trivial
  split at h
  · cases h
    trivial
  split at h
  · cases h
    trivial
  · exact keysFit_of_selector h

theorem keysFit_of_member {token : List Char} {step : Step} (h : member token = .ok step) :
    step.KeysFit := by
  rw [member] at h
  split at h
  · cases h
  split at h
  · cases h
    trivial
  split at h
  · split at h
    · cases h
    · cases h
      trivial
  · split at h
    · cases h
    · cases h
      exact Key.fits_ofBare _

end Subscript

theorem Step.keysFit_of_parse {expression : String} {steps : List Step}
    (parsed : parse expression = .ok steps) : ∀ step ∈ steps, step.KeysFit := by
  obtain ⟨added, front, each⟩ := exists_produced_of_parse parsed
  intro step mem
  have produced : step = .root ∨ Scan.Produced step := by
    rcases front with rfl | rfl
    · exact .inr (each step mem)
    · exact (List.mem_cons.mp mem).imp_right (each step)
  rcases produced with rfl | produced
  · trivial
  cases produced with
  | descent => trivial
  | parent => trivial
  | bracket classified => exact Subscript.keysFit_of_classify classified
  | member _ member => exact Subscript.keysFit_of_member member

/-! ## Canonical paths -/

namespace Label

theorem exists_spellings {keys : List Key} (fits : ∀ k ∈ keys, k.Fits) :
    ∃ path : List Spelling,
      path.flatMap Spelling.steps = (keys.map Key.canonical).map .property ∧
      (keys.map Label.key).flatMap (fun l => l.fragment.toList) = Spelling.texts path := by
  induction keys with
  | nil => exact ⟨[], rfl, rfl⟩
  | cons k rest ih =>
      obtain ⟨spelling, key, text⟩ := Key.exists_spelling (fits k List.mem_cons_self)
      obtain ⟨path, steps, texts⟩ := ih fun k mem => fits k (List.mem_cons_of_mem _ mem)
      refine ⟨.leading (.bracketed (.property spelling)) :: path, ?_, ?_⟩
      · rw [List.flatMap_cons, steps, List.map_cons, List.map_cons, ← key]
        rfl
      · rw [List.map_cons, List.flatMap_cons, texts, text]
        rfl

theorem toList_render (labels : List Label) :
    (render labels).toList = labels.flatMap fun l => l.fragment.toList := by
  rw [render, String.toList_join, List.flatMap_map]

/-- The canonical path of a location without calls has one step for each label. -/
theorem parse_render {keys : List Key} (fits : ∀ k ∈ keys, k.Fits) :
    Step.parse (render (.root :: keys.map .key)) =
      .ok (.root :: (keys.map Key.canonical).map .property) := by
  obtain ⟨path, steps, texts⟩ := exists_spellings fits
  have text : (render (.root :: keys.map .key)).toList = '$' :: Spelling.texts path := by
    rw [toList_render, List.flatMap_cons, texts]
    rfl
  rw [← String.ofList_toList (s := render _), text, ← steps]
  exact Step.parse_eq_ok_iff.mpr ⟨Scan.not_blank_root _, Scan.steps_texts path⟩

end Label

end TreePath
