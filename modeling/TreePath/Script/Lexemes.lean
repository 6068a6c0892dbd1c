/-
# Lexemes — a script as a sequence of lexemes

A text is cut into lexemes from the front, one after the other, with blanks between them passed over.  If
something is left that no lexeme begins with, the text is no script.

The recursion is on the length of the text.  Every lexeme takes at least one character
(`length_takeToken?_le`), and what is taken by each kind of lexeme is bounded by the lemmas before it, from
the runs of characters that numbers and names are made of.
-/
import TreePath.Script.Token

namespace TreePath

namespace Script

/-! ## What a lexeme leaves is shorter -/

theorem length_dropWhile_le (p : Char → Bool) (text : List Char) :
    (text.dropWhile p).length ≤ text.length :=
  (List.dropWhile_sublist p).length_le

theorem length_takeFraction_le (text : List Char) :
    (takeFraction text).2.length ≤ text.length := by
  unfold takeFraction
  split
  · split
    · exact Nat.le_refl _
    · exact Nat.le_succ_of_le (length_dropWhile_le _ _)
  · exact Nat.le_refl _

theorem length_readSign_le (text : List Char) :
    (Numeral.readSign text).2.length ≤ text.length := by
  unfold Numeral.readSign
  split <;> simp

theorem length_takeExponent_le (text : List Char) :
    (takeExponent text).2.length ≤ text.length := by
  unfold takeExponent
  split
  · exact Nat.le_refl _
  · rename_i c rest
    split
    · dsimp only
      split
      · exact Nat.le_refl _
      · exact Nat.le_succ_of_le
          (Nat.le_trans (length_dropWhile_le _ _) (length_readSign_le rest))
    · exact Nat.le_refl _

theorem length_takeNumber_lt (c : Char) (rest : List Char) (digit : c.isDigit = true) :
    (takeNumber (c :: rest)).2.length < (c :: rest).length := by
  have h := length_dropWhile_le Char.isDigit rest
  simp only [takeNumber, List.dropWhile_cons, digit, if_true, List.length_cons]
  exact Nat.lt_succ_of_le
    (Nat.le_trans (length_takeExponent_le _) (Nat.le_trans (length_takeFraction_le _) h))

theorem length_takeString?_le {mark : Char} {text body after : List Char}
    (h : takeString? mark text = some (body, after)) : after.length ≤ text.length := by
  fun_induction takeString? mark text generalizing body with
  | case1 => simp at h
  | case2 => simp at h
  | case3 c rest ih =>
    simp only [Option.map_eq_some_iff, Prod.mk.injEq, Prod.exists] at h
    obtain ⟨b, a, hb, -, rfl⟩ := h
    have := ih hb
    simp only [List.length_cons]
    omega
  | case4 rest =>
    simp only [Option.some.injEq, Prod.mk.injEq] at h
    simp [← h.2]
  | case5 c rest _ _ _ ih =>
    simp only [Option.map_eq_some_iff, Prod.mk.injEq, Prod.exists] at h
    obtain ⟨b, a, hb, -, rfl⟩ := h
    have := ih hb
    simp only [List.length_cons]
    omega

theorem append_of_isPrefixOf? {spelling text after : List Char}
    (h : spelling.isPrefixOf? text = some after) : spelling ++ after = text := by
  induction spelling generalizing text with
  | nil => exact (Option.some.inj h).symm
  | cons c spelling ih =>
    cases text with
    | nil => cases h
    | cons d text =>
      replace h : (if c == d then spelling.isPrefixOf? text else none) = some after := h
      split at h
      · rename_i same
        rw [List.cons_append, ih h, beq_iff_eq.mp same]
      · cases h

theorem length_takeBinding_le (rest : List Char) : (takeBinding rest).2.length ≤ rest.length := by
  unfold takeBinding
  split
  · rename_i after h
    have := append_of_isPrefixOf? h
    split
    · exact Nat.le_refl _
    · rw [← this, List.length_append]
      exact Nat.le_add_left _ _
  · exact Nat.le_refl _

theorem symbols_nonempty : ∀ entry ∈ symbols, 1 ≤ entry.1.length := by
  decide

theorem length_takeSymbol?_lt {text after : List Char} {token : Token}
    (h : takeSymbol? text = some (token, after)) : after.length < text.length := by
  obtain ⟨⟨spelling, t⟩, mem, hs⟩ := List.exists_of_findSome?_eq_some h
  have pos := symbols_nonempty _ mem
  simp only [Option.map_eq_some_iff, Prod.mk.injEq] at hs
  obtain ⟨rest, hr, -, rfl⟩ := hs
  have := append_of_isPrefixOf? hr
  rw [← this, List.length_append]
  simp only at pos
  omega

theorem length_takeToken?_le {c : Char} {rest after : List Char} {token : Token}
    (h : takeToken? c rest = some (token, after)) : after.length ≤ rest.length := by
  unfold takeToken? at h
  split at h
  · have := length_takeBinding_le rest
    simp_all
  split at h
  · unfold takeMember? at h
    split at h
    · have := length_dropWhile_le isNameChar rest
      simp_all
    · simp at h
  split at h
  · simp only [takeQuoted?, Option.map_eq_some_iff, Prod.mk.injEq, Prod.exists] at h
    obtain ⟨b, a, hb, -, rfl⟩ := h
    exact length_takeString?_le hb
  split at h
  · rename_i digit
    have := length_takeNumber_lt c rest digit
    simp only [Option.some.injEq, Prod.mk.injEq] at h
    rw [← h.2]
    exact Nat.le_of_lt_succ this
  split at h
  · rename_i start
    simp only [takeKeyword?, Option.map_eq_some_iff, Prod.mk.injEq] at h
    obtain ⟨_, _, -, rfl⟩ := h
    have name : isNameChar c = true := by
      simp only [isNameStart, isNameChar, Bool.or_eq_true, Char.isAlphanum] at start ⊢
      rcases start with (h | h) | h <;> simp [h]
    have := length_dropWhile_le isNameChar rest
    simp [name, this]
  · exact Nat.le_of_lt_succ (length_takeSymbol?_lt h)

def tokens? (text : List Char) : Option (List Token) :=
  match text with
  | [] => some []
  | c :: rest =>
    if isGap c then tokens? rest
    else
      match _h : takeToken? c rest with
      | none => none
      | some (token, after) => (tokens? after).map (token :: ·)
termination_by text.length
decreasing_by
  · simp
  · exact Nat.lt_succ_of_le (length_takeToken?_le _h)

end Script

end TreePath
