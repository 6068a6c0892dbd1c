/-
# Parts — a path is read and compiled in its parts

A path that is complete may go on with a separator: it has its own steps and then those of the rest, or the
flaw of the rest, as far behind as the path is long.  And a path may do without its root: written with one,
it has the same steps after the root, and compiles to the same program.

`parse_parts` puts the two together.  What follows the path is read behind a root alone, and the flaw that it
has there is moved by the characters of the path in the place of the root.

`Step.RootedAs` are the spellings of a root in front of a path that has none.  A path that begins with a
member may have a dot after the root; for one that begins with a separator there is one spelling.

The work is done by the scan (`Path/Continuation`); here it is put into terms of expressions.
-/
import TreePath.Proofs.Program.Compiled

namespace TreePath

/-- The spellings of a path with a root in front, for a path that has none. -/
inductive Step.RootedAs (path : String) : String → Prop
  | direct {c : Char} : path.toList.head? = some c → c ≠ '$' → Step.RootedAs path ("$" ++ path)
  /-- A path that begins with a member may have a dot before it. -/
  | dotted {c : Char} : path.toList.head? = some c → c ≠ '$' → Scan.isSeparator c = false →
      Step.RootedAs path ("$." ++ path)

namespace Step

theorem RootedAs.parse {path rooted : String} (spelled : RootedAs path rooted) {steps : List Step}
    (parsed : Step.parse path = .ok steps) : Step.parse rooted = .ok (.root :: steps) := by
  rw [← String.ofList_toList (s := path)] at parsed
  obtain ⟨_, scanned⟩ := parse_eq_ok_iff.mp parsed
  rw [← String.ofList_toList (s := rooted)]
  cases spelled with
  | direct begins unrooted =>
      obtain ⟨rest, text⟩ := List.head?_eq_some_iff.mp begins
      rw [String.toList_append, text]
      rw [text] at scanned
      refine parse_eq_ok_iff.mpr ⟨rfl, ?_⟩
      show Scan.steps ('$' :: _ :: rest) = _
      rw [Scan.steps_root unrooted, scanned]
      rfl
  | dotted begins unrooted member =>
      obtain ⟨rest, text⟩ := List.head?_eq_some_iff.mp begins
      rw [String.toList_append, text]
      rw [text] at scanned
      refine parse_eq_ok_iff.mpr ⟨rfl, ?_⟩
      show Scan.steps ('$' :: '.' :: _ :: rest) = _
      rw [Scan.steps_root_dot unrooted member, scanned]
      rfl

end Step

namespace Program

/-- A root in front of the steps does not show in what they are compiled to. -/
theorem compile_root {path rooted : String} {steps : List Step}
    (parsed : Step.parse path = .ok steps) (parsed' : Step.parse rooted = .ok (.root :: steps))
    (options : Options) :
    (compile rooted options).map (fun program => (program.code, program.flags)) =
      (compile path options).map fun program => (program.code, program.flags) := by
  rw [compile_eq, compile_eq, parsed, parsed']
  show Except.map _ (Step.lower options (.root :: steps) >>= _) =
    Except.map _ (Step.lower options steps >>= _)
  rw [Step.lower_root]
  cases Step.lower options steps <;> rfl

/-- A path that is read goes on with what the rest adds to a root, or ends in the flaw that the rest has
there, moved by the characters of the path in the place of the root; and it is read and compiled as it is
with a root in front. -/
theorem parse_parts {path : String} {steps : List Step} (parsed : Step.parse path = .ok steps) :
    (∀ rest c, rest.toList.head? = some c → Scan.isSeparator c = true →
      (∃ added, Step.parse ("$" ++ rest) = .ok (.root :: added) ∧
        Step.parse (path ++ rest) = .ok (steps ++ added)) ∨
      ∃ position flaw, Step.parse ("$" ++ rest) = .error (.path ("$" ++ rest) position flaw) ∧
        Step.parse (path ++ rest) =
          .error (.path (path ++ rest) (position + (path.length - 1)) flaw)) ∧
    ∀ rooted, Step.RootedAs path rooted → Step.parse rooted = .ok (.root :: steps) ∧
      ∀ options, (compile rooted options).map (fun program => (program.code, program.flags)) =
        (compile path options).map fun program => (program.code, program.flags) := by
  constructor
  · intro rest c begins separator
    have root : Step.parse "$" = .ok [.root] := rfl
    rw [Step.parse_continued root begins separator, Step.parse_continued parsed begins separator]
    cases Scan.steps rest.toList with
    | ok added => exact .inl ⟨added, rfl, rfl⟩
    | error failure =>
        have nonempty : 1 ≤ path.length := by
          refine Nat.one_le_iff_ne_zero.mpr fun empty => ?_
          rw [String.length_eq_zero_iff.mp empty] at parsed
          cases parsed
        refine .inr ⟨failure.position + 1, failure.flaw, rfl, ?_⟩
        show Except.error _ = _
        rw [Nat.add_assoc, Nat.add_sub_cancel' nonempty]
  · intro rooted spelled
    have parsed' := spelled.parse parsed
    exact ⟨parsed', compile_root parsed parsed'⟩

/-- A path without a root, with a bracket after it that is not closed, and with a root. -/
theorem parse_parts_unclosed :
    let steps : List Step := [.property (.name "a"), .property (.name "b")]
    Step.parse "a.b" = .ok steps ∧
      Step.parse ("$" ++ "[") = .error (.path ("$" ++ "[") 1 .unclosedBracket) ∧
      Step.parse ("a.b" ++ "[") = .error (.path ("a.b" ++ "[") 3 .unclosedBracket) ∧
      Step.parse ("$." ++ "a.b") = .ok (.root :: steps) := by
  intro steps
  have parsed : Step.parse "a.b" = .ok steps := by rfl
  have unclosed : Step.parse ("$" ++ "[") = .error (.path ("$" ++ "[") 1 .unclosedBracket) := by rfl
  obtain ⟨continued, rooted⟩ := parse_parts parsed
  refine ⟨parsed, unclosed, ?_, (rooted _ (.dotted (c := 'a') rfl (by decide) rfl)).1⟩
  rcases continued "[" '[' rfl rfl with ⟨_, complete, _⟩ | ⟨position, flaw, fails, moved⟩
  · cases unclosed.symm.trans complete
  · cases unclosed.symm.trans fails
    exact moved

end Program

end TreePath
