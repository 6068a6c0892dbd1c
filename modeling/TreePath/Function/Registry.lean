/-
# Registry — named functions, in the order of their names

A function takes a value and may refuse it.  It has an identity besides its behaviour, so that two registries
can be told to hold the very same functions; behaviours cannot be compared.

The names of a registry are unique and ascend by code points, which is a field of the structure
(`Ascending`).  Two registries with the same entries are then equal, in whatever order the functions were
registered.

* `register` takes the place of a function of the same name.
* `extend` registers every function of another registry, so the other one wins where both have a name.
* `identities` is what a cache compares two registries by.
-/
import TreePath.Fault

namespace TreePath

/-- A function of values. -/
structure Func where
  /-- Tells functions apart that were made separately. -/
  identity : Nat
  apply : Json → Except Fault Json

instance : Inhabited Func := ⟨⟨0, .ok⟩⟩

namespace Registry

/-- Inserts an entry where its name belongs, in the place of one of the same name. -/
def insertEntry (name : String) (f : Func) : List (String × Func) → List (String × Func)
  | [] => [(name, f)]
  | (other, g) :: rest =>
    if name < other then (name, f) :: (other, g) :: rest
    else if name = other then (name, f) :: rest
    else (other, g) :: insertEntry name f rest

/-- Names ascend. -/
def Ascending (entries : List (String × Func)) : Prop :=
  entries.Pairwise fun a b => a.1 < b.1

theorem mem_insertEntry {name : String} {f : Func} {entries : List (String × Func)}
    {e : String × Func} (h : e ∈ insertEntry name f entries) : e.1 = name ∨ e ∈ entries := by
  induction entries with
  | nil => simp_all [insertEntry]
  | cons head rest ih => grind [insertEntry]

theorem ascending_insertEntry (name : String) (f : Func) {entries : List (String × Func)}
    (h : Ascending entries) : Ascending (insertEntry name f entries) := by
  induction entries with
  | nil => simp [insertEntry, Ascending]
  | cons head rest ih =>
    obtain ⟨other, g⟩ := head
    have hr := List.pairwise_cons.1 h
    unfold insertEntry
    split
    · rename_i lt
      refine List.pairwise_cons.2 ⟨fun e he => ?_, h⟩
      rcases List.mem_cons.1 he with rfl | mem
      · exact lt
      · exact String.lt_trans lt (hr.1 e mem)
    · split
      · rename_i eq
        subst eq
        exact List.pairwise_cons.2 hr
      · rename_i nlt ne
        refine List.pairwise_cons.2 ⟨fun e he => ?_, ih hr.2⟩
        rcases mem_insertEntry he with eq | mem
        · exact eq ▸ Std.lt_of_le_of_ne (String.not_lt.1 nlt) (Ne.symm ne)
        · exact hr.1 e mem

end Registry

/-- Named functions; names ascend, so they are unique. -/
structure Registry where
  entries : List (String × Func)
  ascending : Registry.Ascending entries

namespace Registry

def empty : Registry :=
  ⟨[], .nil⟩

instance : Inhabited Registry := ⟨empty⟩

/-- Registers a function under a name. -/
def register (registry : Registry) (name : String) (f : Func) : Registry :=
  ⟨insertEntry name f registry.entries, ascending_insertEntry name f registry.ascending⟩

/-- Registers every function of `other`, which wins where both have a name. -/
def extend (registry other : Registry) : Registry :=
  other.entries.foldl (fun r entry => r.register entry.1 entry.2) registry

/-- Registers the functions of a list, one after the other. -/
def ofList (entries : List (String × Func)) : Registry :=
  entries.foldl (fun r entry => r.register entry.1 entry.2) empty

def find? (registry : Registry) (name : String) : Option Func :=
  registry.entries.lookup name

def contains (registry : Registry) (name : String) : Bool :=
  (registry.find? name).isSome

def names (registry : Registry) : List String :=
  registry.entries.map Prod.fst

def size (registry : Registry) : Nat :=
  registry.entries.length

def isEmpty (registry : Registry) : Bool :=
  registry.entries.isEmpty

/-- The names with the identities of their functions: two registries that agree here hold the same
functions. -/
def identities (registry : Registry) : List (String × Nat) :=
  registry.entries.map fun (name, f) => (name, f.identity)

end Registry

end TreePath
