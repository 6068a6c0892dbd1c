/-
# Results — when a chain of computations that can fail has a result

Runs are written in a monad of faults.  Proofs about them ask two questions: when is there a result, and when
is there which fault.

* `bind_eq_ok_iff`, `map_eq_ok_iff` and their kin answer them for one step, so that no other proof opens the
  monad.
* A list of computations has a result if each has one, and fails with the first that fails: the lemmas about
  `mapM` and `filterMapM`, by the first member.
* Two lists that agree one by one, up to what is made of their results, agree as a whole
  (`map_mapM_congr`).

All of it is about lists and results in general.  Only what the runs of programs need is here.
-/
import Mathlib.Data.List.Basic
import Mathlib.Data.List.Forall2

namespace TreePath

variable {ε α β : Type}

theorem bind_eq_ok_iff {result : Except ε α} {f : α → Except ε β} {b : β} :
    result >>= f = .ok b ↔ ∃ a, result = .ok a ∧ f a = .ok b := by
  cases result with
  | error _ =>
      constructor
      · rintro ⟨⟩
      · rintro ⟨_, ⟨⟩, _⟩
  | ok a =>
      constructor
      · intro h
        exact ⟨a, rfl, h⟩
      · rintro ⟨_, ⟨⟩, h⟩
        exact h

theorem bind_eq_error_iff {result : Except ε α} {f : α → Except ε β} {fault : ε} :
    result >>= f = .error fault ↔
      result = .error fault ∨ ∃ a, result = .ok a ∧ f a = .error fault := by
  cases result with
  | error _ =>
      constructor
      · rintro ⟨⟩
        exact .inl rfl
      · rintro (⟨⟨⟩⟩ | ⟨_, ⟨⟩, _⟩)
        rfl
  | ok a =>
      constructor
      · intro h
        exact .inr ⟨a, rfl, h⟩
      · rintro (⟨⟨⟩⟩ | ⟨_, ⟨⟩, h⟩)
        exact h

theorem map_eq_ok_iff {result : Except ε α} {f : α → β} {b : β} :
    result.map f = .ok b ↔ ∃ a, result = .ok a ∧ b = f a := by
  cases result with
  | error _ =>
      constructor
      · rintro ⟨⟩
      · rintro ⟨_, ⟨⟩, _⟩
  | ok a =>
      constructor
      · rintro ⟨⟩
        exact ⟨a, rfl, rfl⟩
      · rintro ⟨_, ⟨⟩, rfl⟩
        rfl

theorem mapM_cons_eq_ok_iff {f : α → Except ε β} {a : α} {l : List α}
    {results : List β} :
    (a :: l).mapM f = .ok results ↔
      ∃ b others, f a = .ok b ∧ l.mapM f = .ok others ∧ results = b :: others := by
  rw [List.mapM_cons]
  constructor
  · intro h
    obtain ⟨b, first, h⟩ := bind_eq_ok_iff.mp h
    obtain ⟨others, rest, h⟩ := bind_eq_ok_iff.mp h
    cases h
    exact ⟨b, others, first, rest, rfl⟩
  · rintro ⟨b, others, first, rest, rfl⟩
    exact bind_eq_ok_iff.mpr ⟨b, first, bind_eq_ok_iff.mpr ⟨others, rest, rfl⟩⟩

theorem mapM_append_eq_ok_iff {f : α → Except ε β} {l l' : List α} {results : List β} :
    (l ++ l').mapM f = .ok results ↔
      ∃ first others, l.mapM f = .ok first ∧ l'.mapM f = .ok others ∧ results = first ++ others := by
  rw [List.mapM_append]
  constructor
  · intro h
    obtain ⟨first, found, h⟩ := bind_eq_ok_iff.mp h
    obtain ⟨others, found', h⟩ := bind_eq_ok_iff.mp h
    cases h
    exact ⟨first, others, found, found', rfl⟩
  · rintro ⟨first, others, found, found', rfl⟩
    exact bind_eq_ok_iff.mpr ⟨first, found, bind_eq_ok_iff.mpr ⟨others, found', rfl⟩⟩

theorem mapM_congr {f g : α → Except ε β} {l : List α} (h : ∀ a ∈ l, f a = g a) :
    l.mapM f = l.mapM g := by
  induction l with
  | nil => rfl
  | cons a l ih =>
      rw [List.mapM_cons, List.mapM_cons, h a List.mem_cons_self,
        ih fun a mem => h a (List.mem_cons_of_mem _ mem)]

theorem exists_of_mem_mapM {f : α → Except ε β} {l : List α} {results : List β}
    (h : l.mapM f = .ok results) {b : β} (mem : b ∈ results) : ∃ a ∈ l, f a = .ok b := by
  induction l generalizing results with
  | nil =>
      cases h
      cases mem
  | cons a l ih =>
      obtain ⟨c, others, first, rest, rfl⟩ := mapM_cons_eq_ok_iff.mp h
      rcases List.mem_cons.mp mem with rfl | mem
      · exact ⟨a, List.mem_cons_self, first⟩
      · obtain ⟨a', mem', eq⟩ := ih rest mem
        exact ⟨a', List.mem_cons_of_mem _ mem', eq⟩

/-- What holds between the members of a list, each before the other, holds between their results. -/
theorem pairwise_of_mapM {R : α → α → Prop} {S : β → β → Prop} {f : α → Except ε β} {l : List α}
    {results : List β} (h : l.mapM f = .ok results) (pairwise : l.Pairwise R)
    (each : ∀ a ∈ l, ∀ a' ∈ l, ∀ b b', f a = .ok b → f a' = .ok b' → R a a' → S b b') :
    results.Pairwise S := by
  induction l generalizing results with
  | nil =>
      cases h
      exact .nil
  | cons a l ih =>
      obtain ⟨b, others, first, rest, rfl⟩ := mapM_cons_eq_ok_iff.mp h
      obtain ⟨head, tail⟩ := List.pairwise_cons.mp pairwise
      refine List.pairwise_cons.mpr ⟨?_, ih rest tail ?_⟩
      · intro b' mem
        obtain ⟨a', mem', found⟩ := exists_of_mem_mapM rest mem
        exact each a List.mem_cons_self a' (List.mem_cons_of_mem _ mem') b b' first found
          (head a' mem')
      · intro a mem a' mem'
        exact each a (List.mem_cons_of_mem _ mem) a' (List.mem_cons_of_mem _ mem')

theorem exists_error_of_mapM {f : α → Except ε β} {l : List α} {fault : ε}
    (h : l.mapM f = .error fault) : ∃ a ∈ l, f a = .error fault := by
  induction l with
  | nil => cases h
  | cons a l ih =>
      rw [List.mapM_cons] at h
      cases first : f a with
      | error _ =>
          rw [first] at h
          cases h
          exact ⟨a, List.mem_cons_self, first⟩
      | ok b =>
          cases others : l.mapM f with
          | error _ =>
              rw [first, others] at h
              cases h
              obtain ⟨a', mem, eq⟩ := ih others
              exact ⟨a', List.mem_cons_of_mem _ mem, eq⟩
          | ok _ =>
              rw [first, others] at h
              cases h

/-! ## What is kept of a list -/

theorem filterMapM_cons (f : α → Except ε (Option β)) (a : α) (l : List α) :
    (a :: l).filterMapM f = do return (← f a).toList ++ (← l.filterMapM f) := by
  rw [List.filterMapM_cons]
  cases f a with
  | error _ => rfl
  | ok kept =>
      cases kept with
      | none => exact (bind_pure (l.filterMapM f)).symm
      | some _ => rfl

theorem filterMapM_append (f : α → Except ε (Option β)) (l l' : List α) :
    (l ++ l').filterMapM f = do return (← l.filterMapM f) ++ (← l'.filterMapM f) := by
  induction l with
  | nil => exact (bind_pure (l'.filterMapM f)).symm
  | cons a l ih =>
      rw [List.cons_append, filterMapM_cons, filterMapM_cons, ih]
      simp only [bind_assoc, pure_bind, List.append_assoc]

/-! ## What is made of results -/

variable {α' γ : Type}

theorem map_map (result : Except ε α) (f : α → α') (g : α' → β) :
    (result.map f).map g = result.map fun a => g (f a) := by
  cases result <;> rfl

theorem map_mapM (f : γ → Except ε α) (g : α → β) (l : List γ) :
    (l.mapM f).map (List.map g) = l.mapM fun c => (f c).map g := by
  induction l with
  | nil => rfl
  | cons c l ih =>
      rw [List.mapM_cons, List.mapM_cons, ← ih]
      cases f c with
      | error _ => rfl
      | ok a => cases l.mapM f <;> rfl

theorem map_mapM_congr {f : γ → Except ε α} {f' : γ → Except ε α'} {g : α → β} {g' : α' → β}
    {l : List γ} (h : ∀ c ∈ l, (f c).map g = (f' c).map g') :
    (l.mapM f).map (List.map g) = (l.mapM f').map (List.map g') := by
  rw [map_mapM, map_mapM]
  exact mapM_congr h

end TreePath
