/-
# Listing — the children of the document by a wildcard and by the standard functions

A wildcard goes to the children of a container in order.  The function `keys` gives their keys, as strings and
numbers, and a sub-path makes keys of them again: the same ones, and each leads to the child that it was
listed with.  So `[$.keys()]` stands for `[*]` at the root, whatever follows; `values` and `length` give the
values and the number of the same children.

`listings_agree` has these, for every suffix, context and proper document, with the functions bound when the
path is compiled or found in the context (`Provided`).  At a scalar they part: the keys are an evaluation
fault there, and the wildcard has no match.

That names are read back is the point where the document has to be proper: a position that an array lists
has a numeral, and the names of an object are distinct.
-/
import TreePath.Function.Standard
import TreePath.Proofs.Json.Descent
import TreePath.Proofs.Program.Binding
import TreePath.Proofs.Program.Lookup

namespace TreePath

/-! ## The standard functions by name -/

open Trace

namespace Standard

/-- A step that names a standard function comes to it: the function is bound, or stands in the context. -/
def Provided (functions : Registry) (context : Option Registry) : Prop :=
  ∀ name apply, (name, apply) ∈ Standard.functions →
    ∃ f, resolve context name (functions.find? name) = .ok f ∧ f.apply = apply

theorem exists_find?_standard {name : String} {apply : Json → Except Fault Json}
    (listed : (name, apply) ∈ functions) (first : Nat) :
    ∃ f, (Registry.standard first).find? name = some f ∧ f.apply = apply := by
  obtain ⟨i, lt, entry⟩ := List.mem_iff_getElem.mp listed
  refine ⟨⟨first + i, apply⟩, Registry.find?_ofList ?_ ?_, rfl⟩
  · rw [List.map_map]
    show (functions.map Prod.fst).Nodup
    decide
  · refine List.mem_map.mpr ⟨((name, apply), first + i), ?_, rfl⟩
    rw [List.mk_add_mem_zipIdx_iff_getElem?, List.getElem?_eq_getElem lt, entry]

theorem provided_standard (first : Nat) (context : Option Registry) :
    Provided (.standard first) context := by
  intro name apply listed
  obtain ⟨f, found, same⟩ := exists_find?_standard listed first
  refine ⟨f, ?_, same⟩
  rw [found]
  rfl

end Standard

/-! ## What the functions give for a container -/

theorem Json.map_snd_children_arr (items : List Json) :
    (Json.arr items).children.map Prod.snd = items := by
  rw [Json.children, List.map_map]
  exact List.zipIdx_map_fst 0 items

namespace Standard

variable {value : Json} (container : value.isContainer = true)

include container

/-- The keys are scalars that stand for the keys of the children. -/
theorem exists_keys_eq : ∃ items, keys value = .ok (.arr items) ∧
    items.filterMap Key.ofScalar? = value.children.map Prod.fst := by
  cases value with
  | null | bool _ | num _ | str _ => cases container
  | obj members =>
      refine ⟨_, rfl, ?_⟩
      rw [List.filterMap_map, Json.children, List.map_map]
      show members.filterMap (fun m => some (Key.name m.1)) = members.map fun m => Key.name m.1
      exact congrFun List.filterMap_eq_map' members
  | arr items =>
      refine ⟨_, rfl, ?_⟩
      have position : Key.ofScalar? ∘ Json.ofNat = fun i => some (Key.index i) := by
        funext i
        simp [Json.ofNat, Key.ofScalar?]
      have positions : items.zipIdx.map Prod.snd = List.range items.length := by
        rw [List.zipIdx_map_snd, List.range_eq_range']
      rw [List.filterMap_map, position, List.filterMap_eq_map', Json.children, List.map_map, ← positions,
        List.map_map]
      rfl

theorem values_eq : values value = .ok (.arr (value.children.map Prod.snd)) := by
  cases value with
  | null | bool _ | num _ | str _ => cases container
  | obj members =>
      rw [Json.children, List.map_map]
      rfl
  | arr items =>
      rw [Json.map_snd_children_arr]
      rfl

theorem length_eq : length value = .ok (.ofNat value.children.length) := by
  cases value with
  | null | bool _ | num _ | str _ => cases container
  | obj members => simp [Json.children, Standard.length]
  | arr items => simp [Json.children, Standard.length]

end Standard

/-! ## The keys of the children lead to the children -/

theorem History.select_keys {value : Json} (proper : value.Proper) (h : History) :
    h.select value (value.children.map Prod.fst) = h.children value := by
  rw [select, children, List.filterMap_map, ← List.filterMap_eq_map]
  refine List.filterMap_congr ?_
  rintro ⟨key, child⟩ mem
  show (key.child? value).map _ = some _
  rw [proper.child?_of_listed mem]
  rfl

theorem History.map_value_children (document : Json) (h : History) (owner : Json) :
    ((h.children owner).map (toMatch document)).map Match.value = owner.children.map Prod.snd := by
  simp [children, toMatch, value, Function.comp_def]

namespace Program

variable {document : Json} {context : Option Registry}

theorem records_call {name : String} {bound : Option Func} {f : Func}
    (resolved : resolve context name bound = .ok f) (source : String) (steps : List Step)
    (options : Options) :
    (assemble source steps options [.function name bound]).records document context =
      (f.apply document).map fun value => [⟨[.root, .call (name ++ "()")], value⟩] := by
  rw [records_assemble]
  show answer document context [.function name bound, .emit] _ = _
  rw [answer_call resolved]
  show (f.apply document >>= _) = _
  cases f.apply document with
  | error _ => rfl
  | ok value =>
      show answer document context [.emit] _ = _
      exact answer_emit (List.cons_ne_nil _ _)

theorem records_wildcard (source : String) (steps : List Step) (options : Options) :
    (assemble source steps options [.wildcard]).records document context =
      .ok ((History.children [(.root, document)] document).map (History.toMatch document)) := by
  rw [records_assemble]
  exact answer_wildcard _

theorem answer_wildcard_scalar (scalar : document.isContainer = false) (rest : List Op) :
    answer document context (.wildcard :: rest) [(.root, document)] = .ok [] := by
  show History.runAll _ (History.children _ document) = _
  rw [History.children, Json.children_of_scalar scalar]
  rfl

/-- The program of the keys of the document, as a sub-path. -/
def keysProgram (options : Options) : Program :=
  assemble "$.keys()" [.root, .function "keys"] options.nested
    [.function "keys" (options.functions.find? "keys")]

theorem lower_keys (options : Options) :
    Step.lower options [.root, .subPath "$.keys()"] = .ok [.subPath (keysProgram options)] := by
  have call : Step.parse "$.keys()" = .ok [.root, .function "keys"] := by rfl
  have nested : compile "$.keys()" options.nested = .ok (keysProgram options) :=
    compile_single call (by simp) rfl
  have compiled : Op.compile options (.subPath "$.keys()") = .ok (.subPath (keysProgram options)) :=
    map_eq_ok_iff.mpr ⟨_, nested, rfl⟩
  rw [Step.lower_root]
  exact mapM_cons_eq_ok_iff.mpr ⟨_, [], compiled, rfl, rfl⟩

theorem compile_listings {suffix : String} {options : Options} {starred : Program}
    (compiled : compile ("$[*]" ++ suffix) options = .ok starred) :
    ∃ added more, starred = assemble ("$[*]" ++ suffix) ([.root, .wildcard] ++ added) options
        (.wildcard :: more) ∧
      compile ("$[$.keys()]" ++ suffix) options =
        .ok (assemble ("$[$.keys()]" ++ suffix) ([.root, .subPath "$.keys()"] ++ added) options
          (.subPath (keysProgram options) :: more)) := by
  obtain ⟨steps, ops, parsed, lowered, rfl⟩ := compile_eq_ok_iff.mp compiled
  have scans : Scan.Scans .start "$[*]".toList ⟨4, .ready, [.wildcard, .root]⟩ := by rfl
  have wildcard : Step.parse "$[*]" = .ok [.root, .wildcard] := by rfl
  have keys : Step.parse "$[$.keys()]" = .ok [.root, .subPath "$.keys()"] := by rfl
  obtain ⟨added, rfl, parsed'⟩ := Step.parse_replace scans rfl wildcard keys parsed
  rw [Step.lower_append] at lowered
  obtain ⟨front, start, lowered⟩ := bind_eq_ok_iff.mp lowered
  obtain ⟨more, others, whole⟩ := bind_eq_ok_iff.mp lowered
  cases start
  cases whole
  refine ⟨added, more, rfl, compile_eq_ok_iff.mpr ⟨_, _, parsed', ?_, rfl⟩⟩
  rw [Step.lower_append, lower_keys, others]
  rfl

section provided

variable {options : Options} (provided : Standard.Provided options.functions context)

include provided

theorem exists_keysProgram_records (container : document.isContainer = true) :
    ∃ records, (keysProgram options).records document context = .ok records ∧
      keysOf records = document.children.map Prod.fst := by
  obtain ⟨f, resolved, same⟩ := provided "keys" Standard.keys (by simp [Standard.functions])
  obtain ⟨items, listed, keys⟩ := Standard.exists_keys_eq container
  refine ⟨[⟨[.root, .call "keys()"], .arr items⟩], ?_, ?_⟩
  · rw [keysProgram, records_call resolved, same, listed]
    rfl
  · rw [← keys]
    exact List.append_nil _

theorem keysProgram_records_scalar (scalar : document.isContainer = false) :
    (keysProgram options).records document context = .error (.inapplicable "keys" document.kind) := by
  obtain ⟨f, resolved, same⟩ := provided "keys" Standard.keys (by simp [Standard.functions])
  rw [keysProgram, records_call resolved, same]
  cases document with
  | null | bool _ | num _ | str _ => rfl
  | arr _ | obj _ => cases scalar

/-- At the root of a container the sub-path of the keys does what a wildcard does. -/
theorem answer_keysProgram (proper : document.Proper) (container : document.isContainer = true)
    (rest : List Op) :
    answer document context (.subPath (keysProgram options) :: rest) [(.root, document)] =
      answer document context (.wildcard :: rest) [(.root, document)] := by
  obtain ⟨records, found, keys⟩ := exists_keysProgram_records provided container
  rw [answer_subPath found]
  show History.runAll _ (History.select _ document (keysOf records)) =
    History.runAll _ (History.children _ document)
  rw [keys, History.select_keys proper]

theorem exists_records_values (container : document.isContainer = true) (source : String)
    (steps : List Step) :
    ∃ found, (assemble source steps options
        [.function "values" (options.functions.find? "values"), .wildcard]).records document context =
          .ok found ∧
      found.map Match.value = document.children.map Prod.snd := by
  obtain ⟨f, resolved, same⟩ := provided "values" Standard.values (by simp [Standard.functions])
  rw [records_assemble]
  show ∃ found, answer document context [.function "values" _, .wildcard, .emit] _ = .ok found ∧ _
  rw [answer_call resolved, same]
  show ∃ found, (Standard.values document >>= _) = .ok found ∧ _
  rw [Standard.values_eq container]
  refine ⟨_, answer_wildcard _, ?_⟩
  rw [History.map_value_children]
  exact Json.map_snd_children_arr _

theorem records_length (container : document.isContainer = true) (source : String)
    (steps : List Step) :
    (assemble source steps options
        [.function "length" (options.functions.find? "length")]).records document context =
      .ok [⟨[.root, .call "length()"], .ofNat document.children.length⟩] := by
  obtain ⟨f, resolved, same⟩ := provided "length" Standard.length (by simp [Standard.functions])
  rw [records_call resolved, same, Standard.length_eq container]
  rfl

/-- **Wildcards and the standard functions list the same children.**  At the start of a path `[$.keys()]`
does what `[*]` does, whatever follows: in a container it has the same matches or the same fault.  In a
container `values` and a wildcard give the values that a wildcard gives, and `length` their number.  In a
scalar the keys are an evaluation fault, and the wildcard has no match. -/
theorem listings_agree (proper : document.Proper) :
    (∀ suffix starred, compile ("$[*]" ++ suffix) options = .ok starred →
      ∃ keyed, compile ("$[$.keys()]" ++ suffix) options = .ok keyed ∧
        (document.isContainer = true →
          keyed.records document context = starred.records document context) ∧
        (document.isContainer = false →
          keyed.records document context = .error (.inapplicable "keys" document.kind) ∧
            starred.records document context = .ok [])) ∧
      ∃ starred valued sized, compile "$[*]" options = .ok starred ∧
        compile "$.values()[*]" options = .ok valued ∧ compile "$.length()" options = .ok sized ∧
        (document.isContainer = true → ∃ found found',
          starred.records document context = .ok found ∧ valued.records document context = .ok found' ∧
            found'.map Match.value = found.map Match.value ∧
            sized.records document context =
              .ok [⟨[.root, .call "length()"], .ofNat found.length⟩]) := by
  constructor
  · intro suffix starred compiled
    obtain ⟨added, more, rfl, compiled'⟩ := compile_listings compiled
    refine ⟨_, compiled', ?_, ?_⟩
    · intro container
      rw [records_assemble, records_assemble]
      exact answer_keysProgram provided proper container _
    · intro scalar
      have failed := keysProgram_records_scalar provided scalar
      rw [records_assemble, records_assemble]
      exact ⟨answer_subPath_error failed _ _, answer_wildcard_scalar scalar _⟩
  · have starParsed : Step.parse "$[*]" = .ok [.root, .wildcard] := by rfl
    have valuesParsed : Step.parse "$.values()[*]" = .ok [.root, .function "values", .wildcard] := by rfl
    have lengthParsed : Step.parse "$.length()" = .ok [.root, .function "length"] := by rfl
    refine ⟨_, _, _, compile_single starParsed (by simp) rfl,
      compile_eq_ok_iff.mpr ⟨_, _, valuesParsed, rfl, rfl⟩,
      compile_single lengthParsed (by simp) rfl, fun container => ?_⟩
    obtain ⟨found, values, same⟩ := exists_records_values provided container "$.values()[*]"
      [.root, .function "values", .wildcard]
    refine ⟨_, found, records_wildcard _ _ _, values, ?_, ?_⟩
    · rw [same, History.map_value_children]
    · rw [records_length provided container, List.length_map, History.children, List.length_map]

end provided

/-- The name of a member is a key of the member also where it is a numeral. -/
theorem listings_agree_numeral :
    let options : Options := ⟨.value, .auto, false, .standard 0⟩
    let document : Json := .obj [("10", .arr [.bool true]), ("a", .arr [.null])]
    Standard.Provided options.functions none ∧ document.Proper ∧
      ∃ starred keyed, compile ("$[*]" ++ "[0]") options = .ok starred ∧
        compile ("$[$.keys()]" ++ "[0]") options = .ok keyed ∧
        keyed.records document none = starred.records document none ∧
        starred.records document none =
          .ok [⟨[.root, .key (.name "10"), .key (.index 0)], .bool true⟩,
            ⟨[.root, .key (.name "a"), .key (.index 0)], .null⟩] := by
  intro options document
  have provided : Standard.Provided options.functions none := Standard.provided_standard 0 none
  have proper : document.Proper := by
    simp [document, Json.Proper, Json.ProperMembers, Json.ProperItems]
  have parsed : Step.parse ("$[*]" ++ "[0]") = .ok [.root, .wildcard, .property (.index 0)] := by rfl
  have lowered : Step.lower options [.root, .wildcard, .property (.index 0)] =
      .ok [.wildcard, .property (.index 0)] := by rfl
  have compiled := compile_eq_ok_iff.mpr ⟨_, _, parsed, lowered, rfl⟩
  obtain ⟨keyed, compiled', same, _⟩ := (listings_agree provided proper).1 "[0]" _ compiled
  refine ⟨provided, proper, _, keyed, compiled, compiled', same rfl, ?_⟩
  rw [records_assemble]
  rfl

end Program

end TreePath
