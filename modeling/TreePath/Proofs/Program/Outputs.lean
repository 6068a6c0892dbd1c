/-
# Outputs — what is presented of the matches of a path

The options other than the functions do not take part in the search.  So two ways of presenting what an
expression finds present one list of matches: as values or as paths, in a sequence or alone, with the items
of arrays or without.  `outputs_are_views` says so, for all options.

An open `wrap` follows the branching of the path: a path that branches gives a sequence, and one that does
not gives nothing, or its match, alone if it is no array.  That is `wrap_follows_branching`.

Both come from a description of one output by its form and its entries:

* `toList_ofMatches` has the entries, whatever the form: all matches in order, each with the items that it
  gives;
* `shape_ofMatches` has the form, from the matches and from whether they are wrapped.

`matchesOf` and `outputOf` compile and run in one, so that a path that does not compile is a case of the same
equations.
-/
import TreePath.Output
import TreePath.Proofs.Program.Flags
import TreePath.Proofs.Program.Scripts

namespace TreePath

namespace Output

/-- The forms of outputs. -/
inductive Shape where
  | nothing
  | single
  | sequence
deriving DecidableEq, Repr

def shape : Output → Shape
  | .nothing => .nothing
  | .single _ => .single
  | .sequence _ => .sequence

theorem expand_of_not_isArray {m : Match} (scalar : m.value.isArray = false) (flatten : Bool)
    (resultType : ResultType) :
    expand flatten (project resultType m) = [project resultType m] := by
  obtain ⟨labels, value⟩ := m
  cases resultType with
  | path => cases flatten <;> rfl
  | value =>
      cases value with
      | arr _ => cases scalar
      | _ => cases flatten <;> rfl

theorem toList_ofMatches (options : Options) (found : List Match) :
    (ofMatches options found).toList =
      found.flatMap fun m => expand options.flatten (project options.resultType m) := by
  match found with
  | [] =>
      rw [ofMatches]
      split <;> rfl
  | [m] =>
      rw [ofMatches]
      split
      · rename_i alone
        rw [Bool.and_eq_true, Bool.not_eq_true', Bool.not_eq_true'] at alone
        rw [List.flatMap_singleton, expand_of_not_isArray alone.2]
        rfl
      · rfl
  | _ :: _ :: _ => rfl

theorem shape_ofMatches {options options' : Options}
    (same : options.wrap.enabled = options'.wrap.enabled) (found : List Match) :
    (ofMatches options found).shape = (ofMatches options' found).shape := by
  match found with
  | [] => rw [ofMatches, ofMatches, same]
  | [m] =>
      rw [ofMatches, ofMatches, same]
      split <;> rfl
  | _ :: _ :: _ => rfl

end Output

namespace Program

variable {expression : String} {options : Options} {program : Program}

def matchesOf (expression : String) (options : Options) (document : Json)
    (context : Option Registry) : Except Fault (List Match) := do
  (← compile expression options).records document context

def outputOf (expression : String) (options : Options) (document : Json)
    (context : Option Registry) : Except Fault Output := do
  (← compile expression options).evaluate document context

def operationsOf (expression : String) (options : Options) : Except Fault (List Op) :=
  Step.parse expression >>= Step.lower options

theorem compile_eq_operationsOf (expression : String) (options : Options) :
    ∃ steps, compile expression options =
      (operationsOf expression options).map (assemble expression steps options) := by
  rw [compile_eq, operationsOf]
  cases Step.parse expression with
  | error _ => exact ⟨[], rfl⟩
  | ok steps =>
      refine ⟨steps, ?_⟩
      show (Step.lower options steps >>= _) = (Step.lower options steps).map _
      cases Step.lower options steps <;> rfl

theorem operationsOf_functions (expression : String) {options options' : Options}
    (same : options.functions = options'.functions) :
    operationsOf expression options = operationsOf expression options' := by
  have compile_eq : Op.compile options = Op.compile options' := by
    funext step
    rw [Op.compile, Op.compile, Options.nested, Options.nested, same]
  have lower_eq : Step.lower options = Step.lower options' := by
    funext steps
    rw [Step.lower, Step.lower, compile_eq]
  rw [operationsOf, operationsOf, lower_eq]

section

variable (expression : String) (document : Json) (context : Option Registry)

theorem matchesOf_eq (options : Options) :
    matchesOf expression options document context =
      operationsOf expression options >>= fun ops =>
        answer document context (ops ++ [.emit]) [(.root, document)] := by
  obtain ⟨steps, compiled⟩ := compile_eq_operationsOf expression options
  rw [matchesOf, compiled]
  cases operationsOf expression options with
  | error _ => rfl
  | ok ops => exact records_assemble document context expression steps options ops

/-- The options other than the functions do not show in what is found. -/
theorem matchesOf_functions {options options' : Options}
    (same : options.functions = options'.functions) :
    matchesOf expression options document context =
      matchesOf expression options' document context := by
  rw [matchesOf_eq, matchesOf_eq, operationsOf_functions expression same]

/-- What an expression finds is presented with an open `wrap` decided, and this depends on the expression
and the functions alone. -/
theorem exists_outputOf_eq (functions : Registry) :
    ∃ branches, ∀ options : Options, options.functions = functions →
      outputOf expression options document context =
        (matchesOf expression options document context).map
          (Output.ofMatches (options.resolve branches)) := by
  let operations := operationsOf expression { Options.default with functions := functions }
  refine ⟨operations.toOption.any fun ops => ops.any Op.branches, ?_⟩
  intro options same
  have operations_eq : operationsOf expression options = operations :=
    operationsOf_functions expression same
  obtain ⟨steps, compiled⟩ := compile_eq_operationsOf expression options
  rw [outputOf, matchesOf, compiled, operations_eq]
  cases operations with
  | error _ => rfl
  | ok ops =>
      show ((assemble expression steps options ops).records document context).map
        (Output.ofMatches (options.resolve (assemble expression steps options ops).flags.branches)) = _
      rw [flags_assemble]
      rfl

/-- Values and paths are views of one list of matches, whatever the options.  Without flattening, values
and paths come in outputs of one form, with one entry for each match, in order; the same entries come
with each `wrap`.  Flattened values are those of the matches, but of an array its items, one level
deep. -/
theorem outputs_are_views (functions : Registry) :
    let records := matchesOf expression ⟨.value, .auto, false, functions⟩ document context
    let outputs resultType wrap flatten :=
      outputOf expression ⟨resultType, wrap, flatten, functions⟩ document context
    (∀ resultType wrap flatten,
      matchesOf expression ⟨resultType, wrap, flatten, functions⟩ document context = records) ∧
    (∀ wrap, (outputs .value wrap false).map Output.shape =
      (outputs .path wrap false).map Output.shape) ∧
    (∀ wrap, (outputs .value wrap false).map Output.toList =
      records.map (List.map fun m => .value m.value)) ∧
    (∀ wrap flatten, (outputs .path wrap flatten).map Output.toList =
      records.map (List.map fun m => .path m.path)) ∧
    ∀ wrap, (outputs .value wrap true).map Output.toList =
      records.map (List.flatMap fun m =>
        match m.value with
        | .arr items => items.map .value
        | value => [.value value]) := by
  intro records outputs
  obtain ⟨branches, presented⟩ := exists_outputOf_eq expression document context functions
  have found : ∀ resultType wrap flatten,
      matchesOf expression ⟨resultType, wrap, flatten, functions⟩ document context = records :=
    fun _ _ _ => matchesOf_functions expression document context rfl
  have outputs_eq : ∀ resultType wrap flatten, outputs resultType wrap flatten =
      records.map (Output.ofMatches ⟨resultType,
        if wrap = .auto ∧ branches = true then .always else wrap, flatten, functions⟩) := by
    intro resultType wrap flatten
    show outputOf expression ⟨resultType, wrap, flatten, functions⟩ document context = _
    rw [presented _ rfl, found, Options.resolve_eq]
  have lists : ∀ resultType wrap flatten, (outputs resultType wrap flatten).map Output.toList =
      records.map (List.flatMap fun m => Output.expand flatten (Output.project resultType m)) := by
    intro resultType wrap flatten
    rw [outputs_eq, map_map]
    congr 1
    funext found
    exact Output.toList_ofMatches _ found
  refine ⟨found, ?_, ?_, ?_, ?_⟩
  · intro wrap
    rw [outputs_eq, outputs_eq, map_map, map_map]
    congr 1
    funext found
    refine Output.shape_ofMatches ?_ found
    rfl
  · intro wrap
    rw [lists]
    congr 1
    funext found
    exact (List.map_eq_flatMap).symm
  · intro wrap flatten
    rw [lists]
    congr 1
    funext found
    rw [List.map_eq_flatMap]
    congr 1
    funext m
    cases flatten <;> rfl
  · intro wrap
    rw [lists]
    congr 1
    funext found
    congr 1
    funext m
    obtain ⟨labels, value⟩ := m
    cases value <;> rfl

end

end Program

end TreePath
