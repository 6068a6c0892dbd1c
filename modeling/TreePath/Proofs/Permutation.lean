/-
# Permutation — lists that agree up to their order, and computations that fail together

Documents that differ in the order of members give matches in different orders, and what fails first in one
may not be what fails first in the other.  Two notions are made for this.

* `Permuted R` holds of two lists if an order of the first agrees with the second item by item, where to
  agree is the relation `R`.  Appending, mapping, filtering and flattening keep it; in `Permuted.flatten` the
  parts may change their order, and so may the items of each part.
* `Together` holds of two computations if both have results, which are related, or both fail.  Which faults
  they fail with is left open.

`Together.mapM` joins the two: what is computed of matching lists, item by item, matches, and fails for both
or for none.  It does not matter which item is the first to fail.
-/
import Mathlib.Data.List.Forall2
import Mathlib.Data.List.Perm.Basic
import TreePath.Proofs.Results

namespace TreePath

variable {α α' β β' γ ε : Type}

/-- The first list, in some order, is related to the second item by item. -/
def Permuted (R : α → β → Prop) (l : List α) (l' : List β) : Prop :=
  ∃ between : List α, l.Perm between ∧ List.Forall₂ R between l'

/-- Both computations have results, which are related, or both fail. -/
inductive Together (R : α → β → Prop) : Except ε α → Except ε β → Prop
  | ok {a : α} {b : β} : R a b → Together R (.ok a) (.ok b)
  | error {fault fault' : ε} : Together R (.error fault) (.error fault')

variable {R : α → β → Prop} {S : α' → β' → Prop}

/-- Lists that are related item by item have related items under each number, or none. -/
theorem rel_getElem? {l : List α} {l' : List β} (h : List.Forall₂ R l l') (number : Nat) :
    Option.Rel R l[number]? l'[number]? := by
  induction h generalizing number with
  | nil => exact .none
  | cons first _ ih =>
      cases number with
      | zero => exact .some first
      | succ number => exact ih number

namespace Permuted

theorem of_forall₂ {l : List α} {l' : List β} (h : List.Forall₂ R l l') : Permuted R l l' :=
  ⟨l, .refl l, h⟩

theorem of_eq {l l' : List α} (same : l = l') : Permuted Eq l l' :=
  of_forall₂ (List.forall₂_eq_eq_eq ▸ same)

theorem nil : Permuted R [] [] :=
  of_forall₂ .nil

theorem singleton {a : α} {b : β} (h : R a b) : Permuted R [a] [b] :=
  of_forall₂ (.cons h .nil)

theorem imp_of_mem {T : α → β → Prop} {l : List α} {l' : List β} (h : Permuted R l l')
    (weaker : ∀ a ∈ l, ∀ b ∈ l', R a b → T a b) : Permuted T l l' := by
  obtain ⟨between, perm, items⟩ := h
  refine ⟨between, perm, ?_⟩
  replace weaker : ∀ a ∈ between, ∀ b ∈ l', R a b → T a b :=
    fun a mem => weaker a (perm.mem_iff.mpr mem)
  clear perm
  induction items with
  | nil => exact .nil
  | cons first _ ih =>
      refine .cons (weaker _ List.mem_cons_self _ List.mem_cons_self first) (ih ?_)
      intro a mem b mem'
      exact weaker a (List.mem_cons_of_mem _ mem) b (List.mem_cons_of_mem _ mem')

theorem append {l m : List α} {l' m' : List β} (h : Permuted R l l') (h' : Permuted R m m') :
    Permuted R (l ++ m) (l' ++ m') := by
  obtain ⟨between, perm, items⟩ := h
  obtain ⟨between', perm', items'⟩ := h'
  exact ⟨between ++ between', perm.append perm', List.rel_append items items'⟩

theorem cons {a : α} {b : β} {l : List α} {l' : List β} (first : R a b) (rest : Permuted R l l') :
    Permuted R (a :: l) (b :: l') :=
  (singleton first).append rest

theorem map {f : α → α'} {f' : β → β'} (each : ∀ a b, R a b → S (f a) (f' b)) {l : List α}
    {l' : List β} (h : Permuted R l l') : Permuted S (l.map f) (l'.map f') := by
  obtain ⟨between, perm, items⟩ := h
  exact ⟨between.map f, perm.map f, List.rel_map (fun a b related => each a b related) items⟩

theorem filterMap {f : α → Option α'} {f' : β → Option β'}
    (each : ∀ a b, R a b → Option.Rel S (f a) (f' b)) {l : List α} {l' : List β}
    (h : Permuted R l l') : Permuted S (l.filterMap f) (l'.filterMap f') := by
  obtain ⟨between, perm, items⟩ := h
  exact ⟨between.filterMap f, perm.filterMap f,
    List.rel_filterMap (fun a b related => each a b related) items⟩

theorem flatten {l : List (List α)} {l' : List (List β)} (h : Permuted (Permuted R) l l') :
    Permuted R l.flatten l'.flatten := by
  obtain ⟨between, perm, parts⟩ := h
  have rows : Permuted R between.flatten l'.flatten := by
    clear perm
    induction parts with
    | nil => exact nil
    | cons part _ ih => exact part.append ih
  obtain ⟨inside, perm', items⟩ := rows
  exact ⟨inside, perm.flatten.trans perm', items⟩

theorem flatMap {f : α → List α'} {f' : β → List β'} (each : ∀ a b, R a b → Permuted S (f a) (f' b))
    {l : List α} {l' : List β} (h : Permuted R l l') : Permuted S (l.flatMap f) (l'.flatMap f') :=
  (h.map each).flatten

theorem flip {l : List α} {l' : List β} (h : Permuted R l l') :
    Permuted (fun b a => R a b) l' l := by
  obtain ⟨between, perm, items⟩ := h
  obtain ⟨between', items', perm'⟩ := List.perm_comp_forall₂ perm items
  exact ⟨between', perm'.symm, items'.flip⟩

theorem exists_of_mem {l : List α} {l' : List β} (h : Permuted R l l') {a : α} (mem : a ∈ l) :
    ∃ b ∈ l', R a b := by
  obtain ⟨between, perm, items⟩ := h
  obtain ⟨i, inside, rfl⟩ := List.mem_iff_getElem.mp (perm.mem_iff.mp mem)
  have inside' : i < l'.length := items.length_eq ▸ inside
  exact ⟨l'[i], List.getElem_mem inside', items.get inside inside'⟩

end Permuted

namespace Together

theorem comp {T : β → γ → Prop} {U : α → γ → Prop} {result : Except ε α} {between : Except ε β}
    {result' : Except ε γ} (h : Together R result between) (h' : Together T between result')
    (through : ∀ a b c, R a b → T b c → U a c) : Together U result result' := by
  cases h with
  | ok related =>
      cases h' with
      | ok related' => exact .ok (through _ _ _ related related')
  | error =>
      cases h' with
      | error => exact .error

theorem bind {result : Except ε α} {result' : Except ε β} (h : Together R result result')
    {f : α → Except ε α'} {f' : β → Except ε β'} (each : ∀ a b, R a b → Together S (f a) (f' b)) :
    Together S (result >>= f) (result' >>= f') := by
  cases h with
  | ok related => exact each _ _ related
  | error => exact .error

theorem map {result : Except ε α} {result' : Except ε β} (h : Together R result result')
    {f : α → α'} {f' : β → β'} (each : ∀ a b, R a b → S (f a) (f' b)) :
    Together S (result.map f) (result'.map f') := by
  cases h with
  | ok related => exact .ok (each _ _ related)
  | error => exact .error

theorem mapError {ε' : Type} {result : Except ε α} {result' : Except ε β}
    (h : Together R result result') (f : ε → ε') :
    Together R (result.mapError f) (result'.mapError f) := by
  cases h with
  | ok related => exact .ok related
  | error => exact .error

theorem mapM_of_forall₂ {f : α → Except ε α'} {f' : β → Except ε β'}
    (each : ∀ a b, R a b → Together S (f a) (f' b)) {l : List α} {l' : List β}
    (h : List.Forall₂ R l l') : Together (List.Forall₂ S) (l.mapM f) (l'.mapM f') := by
  induction h with
  | nil => exact .ok .nil
  | cons first _ ih =>
      rw [List.mapM_cons, List.mapM_cons]
      exact (each _ _ first).bind fun _ _ first => ih.bind fun _ _ rest => .ok (.cons first rest)

theorem mapM_of_perm (f : α → Except ε α') {l m : List α} (perm : l.Perm m) :
    Together List.Perm (l.mapM f) (m.mapM f) := by
  induction perm with
  | nil => exact .ok .nil
  | cons a _ ih =>
      rw [List.mapM_cons, List.mapM_cons]
      cases f a with
      | error _ => exact .error
      | ok b => exact ih.bind fun _ _ perm => .ok (perm.cons b)
  | swap a b l =>
      simp only [List.mapM_cons]
      cases f a with
      | error _ => cases f b <;> exact .error
      | ok _ =>
          cases f b with
          | error _ => exact .error
          | ok _ =>
              cases l.mapM f with
              | error _ => exact .error
              | ok _ => exact .ok (.swap _ _ _)
  | trans _ _ ih ih' => exact ih.comp ih' fun _ _ _ => List.Perm.trans

theorem mapM {f : α → Except ε α'} {f' : β → Except ε β'}
    (each : ∀ a b, R a b → Together S (f a) (f' b)) {l : List α} {l' : List β}
    (h : Permuted R l l') : Together (Permuted S) (l.mapM f) (l'.mapM f') := by
  obtain ⟨between, perm, items⟩ := h
  exact (mapM_of_perm f perm).comp (mapM_of_forall₂ each items) fun _ between _ perm items =>
    ⟨between, perm, items⟩

end Together

end TreePath
