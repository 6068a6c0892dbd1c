/-
# Distinct — no node is found twice

A step that selects children takes a branch to branches one level below it, at pairwise different places
(`LiesAt.scattered_select`): a slice selects no position twice, and the keys of a list are distinct where it
is asked for.  Recursive descent takes a branch to different places too, but on many levels, so that some of
them lie below others.

A path of such steps with one descent at most still finds no place twice.  The reason is one of lengths: what
a part of the path adds to a place is then of the same length for every branch, so a place shows where it
was divided.  That is `Scatter.cons`, and it is where a second descent would break the proof.

`nodup_sites_of_records` says that the matches are at pairwise different places, so that their paths are
pairwise different too.  `LiesAt` is the invariant: a branch without calls, the place that its keys lead to,
and the value that is there.
-/
import TreePath.Proofs.Path.Progression
import TreePath.Proofs.Program.Descent
import TreePath.Proofs.Program.Location
import TreePath.Proofs.Program.SubPath

namespace TreePath

/-! ## Steps that select children -/

/-- A step from a node to some of its children, each once at most. -/
def Step.isSelector : Step → Bool
  | .property _ => true
  | .wildcard => true
  | .slice _ => true
  | .script _ => true
  | .filter _ => true
  | _ => false

theorem Slice.nodup_indices (s : Slice) (count : Nat) : (s.indices count).Nodup := by
  have length : 0 ≤ min (count : Int) maxWord := by
    have largest : 0 ≤ maxWord := by decide
    omega
  rw [indices]
  split
  · have inside : 0 ≤ clampUp (min count maxWord) (s.start.getD 0) := by
      rw [clampUp]
      split <;> omega
    exact (pairwise_ascend inside).imp Nat.ne_of_lt
  · split
    · have outside : -1 ≤ (s.stop.map (clampDown (min count maxWord))).getD (-1) := by
        cases s.stop with
        | none => exact Int.le_refl _
        | some bound =>
            show -1 ≤ clampDown _ bound
            rw [clampDown]
            split <;> omega
      exact (pairwise_descend outside).imp Nat.ne_of_gt
    · exact .nil

/-! ## Branches at places -/

/-- The place that the keys of a match lead to. -/
def Match.place? (document : Json) (m : Match) : Option (List Nat) :=
  document.placeFrom? [] (m.labels.filterMap Label.key?)

namespace History

variable {document : Json}

/-- The place that the keys of a branch lead to. -/
def place? (document : Json) (h : History) : Option (List Nat) :=
  (h.toMatch document).place? document

theorem place?_eq {h : History} {keys : List Key} (labels : h.labels = .root :: keys.map .key) :
    h.place? document = document.placeFrom? [] keys := by
  rw [place?, Match.place?, toMatch, labels, Label.filterMap_key?]

/-- The branch has no calls, its keys lead to the place, and its value is the one that is there. -/
structure LiesAt (document : Json) (h : History) (place : List Nat) : Prop where
  keys : ∃ keys : List Key, (∀ k ∈ keys, k.Fits) ∧ h.labels = .root :: keys.map .key
  leads : h.place? document = some place
  value : document.at? place = some (h.value document)

theorem liesAt_root (document : Json) : LiesAt document [(.root, document)] [] :=
  ⟨⟨[], List.forall_mem_nil _, rfl⟩, rfl, rfl⟩

theorem LiesAt.child {h : History} {place : List Nat} (lies : h.LiesAt document place) {key : Key}
    (fits : key.Fits) {position : Nat} (named : key.position? (h.value document) = some position)
    {child : Json} (isAt : (h.value document).childAt? position = some child) :
    LiesAt document ((.key key, child) :: h) (place ++ [position]) := by
  obtain ⟨keys, all, labels⟩ := lies.keys
  have whole : History.labels ((.key key, child) :: h) = .root :: (keys ++ [key]).map .key := by
    rw [labels_cons, labels, List.map_append]
    rfl
  refine ⟨⟨keys ++ [key], ?_, whole⟩, ?_, ?_⟩
  · intro k mem
    rcases List.mem_append.mp mem with mem | mem
    · exact all k mem
    · exact List.mem_singleton.mp mem ▸ fits
  · have leads := lies.leads
    rw [place?_eq labels] at leads
    rw [place?_eq whole, Json.placeFrom?_concat, leads]
    exact Json.placeFrom?_cons_eq_some_iff.mpr ⟨_, _, lies.value, named, rfl⟩
  · rw [Json.at?_append, lies.value]
    exact isAt

/-- Listed children lead on from place to place. -/
theorem LiesAt.along {h : History} {place : List Nat} (lies : h.LiesAt document place)
    (proper : document.Proper) {added : List Nat} {last : Json}
    (found : (h.value document).at? added = some last) :
    (h.along (h.value document) added).LiesAt document (place ++ added) := by
  induction added generalizing h place with
  | nil =>
      rw [List.append_nil]
      exact lies
  | cons position rest ih =>
      obtain ⟨key, child, listed, found⟩ := Json.at?_cons_eq_some_iff.mp found
      have value := proper.at? lies.value
      have below := lies.child (value.fits_of_listed (List.mem_of_getElem? listed)).1
        (value.position?_of_listed listed) (Json.childAt?_of_children listed)
      rw [along_cons listed, List.append_cons]
      exact ih below found

theorem LiesAt.noCall {h : History} {place : List Nat} (lies : h.LiesAt document place)
    (text : String) : .call text ∉ h.labels := by
  obtain ⟨keys, -, labels⟩ := lies.keys
  rw [labels]
  exact Label.call_notMem keys text

/-- Branches whose paths are written the same lie at the same place. -/
theorem LiesAt.place?_eq_of_path {h h' : History} {place place' : List Nat}
    (lies : h.LiesAt document place) (lies' : h'.LiesAt document place')
    (same : (h.toMatch document).path = (h'.toMatch document).path) :
    h.place? document = h'.place? document := by
  obtain ⟨keys, fits, labels⟩ := lies.keys
  obtain ⟨keys', fits', labels'⟩ := lies'.keys
  rw [Match.path, Match.path, toMatch, toMatch, labels, labels',
    Label.render_eq_render_iff fits fits'] at same
  rw [place?_eq labels, place?_eq labels', ← Json.placeFrom?_canonical fits, same,
    Json.placeFrom?_canonical fits']

/-- Branches at pairwise different places, each of them below a place by positions of a kind. -/
structure Scattered (document : Json) (place : List Nat) (kind : List Nat → Prop)
    (hs : List History) : Prop where
  below : ∀ h ∈ hs, ∃ added, kind added ∧ h.LiesAt document (place ++ added)
  apart : hs.Pairwise fun h h' => h.place? document ≠ h'.place? document

section selections

variable {h : History} {place : List Nat} (lies : h.LiesAt document place) {kind : List Nat → Prop}

include lies

theorem LiesAt.scattered_along (proper : document.Proper) {places : List (List Nat)}
    (distinct : places.Nodup)
    (each : ∀ added ∈ places, kind added ∧ ∃ last, (h.value document).at? added = some last) :
    Scattered document place kind (places.map (h.along (h.value document))) := by
  constructor
  · intro h' mem
    obtain ⟨added, added_mem, rfl⟩ := List.mem_map.mp mem
    obtain ⟨isKind, last, found⟩ := each added added_mem
    exact ⟨added, isKind, lies.along proper found⟩
  · refine List.pairwise_map.mpr (distinct.imp_of_mem ?_)
    intro added added' mem mem' ne same
    obtain ⟨-, _, found⟩ := each added mem
    obtain ⟨-, _, found'⟩ := each added' mem'
    rw [(lies.along proper found).leads, (lies.along proper found').leads] at same
    exact ne (List.append_cancel_left (Option.some.inj same))

theorem LiesAt.scattered_children (proper : document.Proper) :
    Scattered document place (·.length = 1) (h.children (h.value document)) := by
  have listed : h.children (h.value document) =
      ((List.range (h.value document).children.length).map fun position => [position]).map
        (h.along (h.value document)) :=
    @History.children_along (h.value document) h [] _ rfl
  rw [listed]
  refine lies.scattered_along proper ?_ ?_
  · exact List.pairwise_map.mpr
      (List.nodup_range.imp fun ne same => ne (List.cons.inj same).1)
  · intro added mem
    obtain ⟨position, inside, rfl⟩ := List.mem_map.mp mem
    have inside := List.getElem?_eq_getElem (List.mem_range.mp inside)
    exact ⟨rfl, _, Json.at?_cons_eq_some_iff.mpr ⟨_, _, inside, rfl⟩⟩

/-- Keys that lead to different positions select children at different places. -/
theorem LiesAt.scattered_select {keys : List Key}
    (fits : ∀ key ∈ keys, ∀ position, key.position? (h.value document) = some position → key.Fits)
    (apart : keys.Pairwise fun key key' => ∀ position,
      key.position? (h.value document) = some position →
        key'.position? (h.value document) ≠ some position) :
    Scattered document place (·.length = 1) (h.select (h.value document) keys) := by
  have selected : ∀ key ∈ keys, ∀ h' : History,
      ((key.child? (h.value document)).map fun child => (.key key, child) :: h) = some h' →
      ∃ position, key.position? (h.value document) = some position ∧
        LiesAt document h' (place ++ [position]) := by
    intro key mem h' found
    obtain ⟨child, chosen, rfl⟩ := Option.map_eq_some_iff.mp found
    obtain ⟨position, named, isAt⟩ := Option.bind_eq_some_iff.mp chosen
    exact ⟨position, named, lies.child (fits key mem position named) named isAt⟩
  constructor
  · intro h' mem
    obtain ⟨key, key_mem, found⟩ := List.mem_filterMap.mp mem
    obtain ⟨position, -, below⟩ := selected key key_mem h' found
    exact ⟨[position], rfl, below⟩
  · refine List.pairwise_filterMap.mpr (apart.imp_of_mem ?_)
    intro key key' mem mem' differ h₁ found h₂ found' same
    obtain ⟨position, named, below⟩ := selected key mem h₁ found
    obtain ⟨position', named', below'⟩ := selected key' mem' h₂ found'
    rw [below.leads, below'.leads] at same
    cases List.append_cancel_left (Option.some.inj same)
    exact differ position named named'

end selections

end History

/-! ## Operations that scatter branches -/

section

variable {document : Json} {context : Option Registry}

/-- From a branch at a place the operation goes to different places below, by positions of a kind. -/
def Op.Scatters (document : Json) (context : Option Registry) (kind : List Nat → Prop) (op : Op) :
    Prop :=
  ∀ h place hs, History.LiesAt document h place → op.successors document context h = .ok hs →
    History.Scattered document place kind hs

theorem Op.scatters_descent (proper : document.Proper) :
    Op.descent.Scatters document context fun _ => True := by
  intro h place hs lies found
  cases found
  rw [History.containers_eq_map]
  refine lies.scattered_along proper ?_ ?_
  · refine (h.value document).pairwise_containerPlaces.imp ?_
    rintro _ _ apart rfl
    exact apart List.prefix_rfl
  · intro added mem
    exact ⟨trivial, Program.exists_of_mem_containerPlaces mem⟩

theorem Op.scatters_slice (proper : document.Proper) (s : Slice) :
    (Op.slice s).Scatters document context (·.length = 1) := by
  intro h place hs lies found
  cases found
  have value := proper.at? lies.value
  rw [Trace.sliceKeys.eq_def]
  split
  · rename_i items eq
    rw [eq] at value
    refine lies.scattered_select ?_ ?_
    · intro key _ position named
      rw [eq] at named
      exact Key.fits_of_item value named
    · refine List.pairwise_map.mpr ((s.nodup_indices items.length).imp ?_)
      intro i i' ne position named named'
      rw [eq, Key.position?, Key.index?, Option.filter_eq_some_iff] at named named'
      exact ne (Option.some.inj (named.1.trans named'.1.symm))
  · exact lies.scattered_select (List.forall_mem_nil _) .nil

theorem Op.Compiles.scatters {options : Options} {step : Step} {op : Op}
    (h : Op.Compiles options step op) (selects : step.isSelector = true) (fits : step.KeysFit)
    (proper : document.Proper) : op.Scatters document context (·.length = 1) := by
  have single : ∀ {h place} (key : Key), History.LiesAt document h place → key.Fits →
      History.Scattered document place (·.length = 1) (h.select (h.value document) [key]) := by
    intro h place key lies fits
    refine lies.scattered_select ?_ (List.pairwise_singleton _ _)
    intro key' mem _ _
    exact List.mem_singleton.mp mem ▸ fits
  cases h with
  | property =>
      rintro h place hs lies ⟨⟩
      exact single _ lies fits
  | wildcard =>
      rintro h place hs lies ⟨⟩
      exact lies.scattered_children proper
  | slice => exact Op.scatters_slice proper _
  | script compiled =>
      intro h place hs lies found
      obtain ⟨key, selected, found⟩ := bind_eq_ok_iff.mp found
      cases found
      exact single key lies (Script.fits_of_key selected)
  | filter compiled =>
      intro h place hs lies found
      obtain ⟨below, apart⟩ := lies.scattered_children proper
      have kept := History.sublist_of_survivors found
      exact ⟨fun h' mem => below h' (kept.subset mem), apart.sublist kept⟩
  | root | descent | parent | propertyList | function | subPath _ => cases selects

namespace Program

/-- Operations that go to different places below, one after the other. -/
def Scatter (document : Json) (context : Option Registry) (kind : List Nat → Prop)
    (ops : List Op) : Prop :=
  ∀ h place hs, History.LiesAt document h place → reached document context ops h = .ok hs →
    History.Scattered document place kind hs

theorem scatter_nil {kind : List Nat → Prop} (here : kind []) :
    Scatter document context kind [] := by
  rintro h place _ lies ⟨⟩
  refine ⟨?_, List.pairwise_singleton _ _⟩
  intro h' mem
  rw [List.mem_singleton.mp mem]
  exact ⟨[], here, by rwa [List.append_nil]⟩

/-- If the positions that the first operation adds can be told from those that the others add, all places
are different. -/
theorem Scatter.cons {kind kind' whole : List Nat → Prop} {op : Op} {ops : List Op}
    (first : op.Scatters document context kind) (others : Scatter document context kind' ops)
    (divides : ∀ a a' b b', kind a → kind a' → kind' b → kind' b' → a ++ b = a' ++ b' → a = a')
    (joins : ∀ a b, kind a → kind' b → whole (a ++ b)) :
    Scatter document context whole (op :: ops) := by
  intro h place hs lies found
  obtain ⟨successors, parts, step, rest, rfl⟩ := reached_cons_eq_ok_iff.mp found
  obtain ⟨below, apart⟩ := first h place successors lies step
  constructor
  · intro h' mem
    obtain ⟨part, part_mem, mem⟩ := List.mem_flatten.mp mem
    obtain ⟨s, s_mem, found⟩ := exists_of_mem_mapM rest part_mem
    obtain ⟨a, isKind, lies⟩ := below s s_mem
    obtain ⟨b, isKind', lies⟩ := (others s _ part lies found).below h' mem
    rw [List.append_assoc] at lies
    exact ⟨a ++ b, joins a b isKind isKind', lies⟩
  · refine List.pairwise_flatten.mpr ⟨?_, pairwise_of_mapM rest apart ?_⟩
    · intro part part_mem
      obtain ⟨s, s_mem, found⟩ := exists_of_mem_mapM rest part_mem
      obtain ⟨a, -, lies⟩ := below s s_mem
      exact (others s _ part lies found).apart
    · intro s mem s' mem' part part' found found' differ h₁ h₁_mem h₂ h₂_mem same
      obtain ⟨a, isKind, lies⟩ := below s mem
      obtain ⟨a', isKind', lies'⟩ := below s' mem'
      obtain ⟨b, rest, lower⟩ := (others s _ part lies found).below h₁ h₁_mem
      obtain ⟨b', rest', lower'⟩ := (others s' _ part' lies' found').below h₂ h₂_mem
      rw [lower.leads, lower'.leads, List.append_assoc, List.append_assoc] at same
      have divided := divides a a' b b' isKind isKind' rest rest'
        (List.append_cancel_left (Option.some.inj same))
      rw [lies.leads, lies'.leads, divided] at differ
      exact differ rfl

theorem scatter_of_selectors {options : Options} (proper : document.Proper) {steps : List Step}
    {ops : List Op} (compiled : steps.mapM (Op.compile options) = .ok ops)
    (fits : ∀ step ∈ steps, step.KeysFit) (selects : ∀ step ∈ steps, step.isSelector = true) :
    Scatter document context (·.length = ops.length) ops := by
  induction steps generalizing ops with
  | nil =>
      cases compiled
      exact scatter_nil rfl
  | cons step steps ih =>
      obtain ⟨op, others, compiles, rest, rfl⟩ := mapM_cons_eq_ok_iff.mp compiled
      have first : op.Scatters document context (·.length = 1) :=
        (Op.compiles_of_compile compiles).scatters (selects step List.mem_cons_self)
          (fits step List.mem_cons_self) proper
      have later := ih rest (fun s mem => fits s (List.mem_cons_of_mem _ mem))
        fun s mem => selects s (List.mem_cons_of_mem _ mem)
      refine later.cons first ?_ ?_
      · intro a a' b b' one one' _ _ same
        exact (List.append_inj same (one.trans one'.symm)).1
      · intro a b one length
        rw [List.length_append, one, length, List.length_cons, Nat.add_comm]

/-- With one descent among the steps, what is added before it is of one length, and so is what is added
after it. -/
theorem scatter_of_descent {options : Options} (proper : document.Proper) {steps : List Step}
    {ops : List Op} (compiled : steps.mapM (Op.compile options) = .ok ops)
    (fits : ∀ step ∈ steps, step.KeysFit)
    (selects : ∀ step ∈ steps, step.isSelector = true ∨ step = .descent)
    (once : steps.count .descent ≤ 1) : Scatter document context (fun _ => True) ops := by
  induction steps generalizing ops with
  | nil =>
      cases compiled
      exact scatter_nil trivial
  | cons step steps ih =>
      obtain ⟨op, others, compiles, rest, rfl⟩ := mapM_cons_eq_ok_iff.mp compiled
      have fits_rest : ∀ s ∈ steps, s.KeysFit := fun s mem => fits s (List.mem_cons_of_mem _ mem)
      have selects_rest : ∀ s ∈ steps, s.isSelector = true ∨ s = .descent :=
        fun s mem => selects s (List.mem_cons_of_mem _ mem)
      rcases selects step List.mem_cons_self with selector | rfl
      · have first : op.Scatters document context (·.length = 1) :=
          (Op.compiles_of_compile compiles).scatters selector (fits step List.mem_cons_self) proper
        have later := ih rest fits_rest selects_rest
          (Nat.le_trans (List.count_le_count_cons) once)
        refine later.cons first ?_ fun _ _ _ _ => trivial
        intro a a' b b' one one' _ _ same
        exact (List.append_inj same (one.trans one'.symm)).1
      · cases compiles
        have none : Step.descent ∉ steps := by
          rw [List.count_cons_self] at once
          exact List.count_eq_zero.mp (by omega)
        have later : Scatter document context (·.length = others.length) others :=
          scatter_of_selectors proper rest fits_rest fun s mem =>
            (selects_rest s mem).resolve_right fun eq => none (eq ▸ mem)
        refine later.cons (Op.scatters_descent proper) ?_ fun _ _ _ _ => trivial
        intro a a' b b' _ _ length length' same
        exact (List.append_inj' same (length.trans length'.symm)).1

/-- A path of steps that select children, with one descent among them at most, matches pairwise different
places of the document, so that the paths of its matches are pairwise different. -/
theorem nodup_sites_of_records {expression : String} {options : Options} {program : Program}
    (compiled : compile expression options = .ok program) (proper : document.Proper)
    (selects : ∀ step ∈ Step.afterRoot program.steps, step.isSelector = true ∨ step = .descent)
    (once : (Step.afterRoot program.steps).count .descent ≤ 1) {records : List Match}
    (matched : program.records document context = .ok records) :
    ∃ found, program.located document context = .ok found ∧ found.map Prod.fst = records ∧
      (∀ m site, (m, site) ∈ found →
        ∃ place, site = .document place ∧ document.at? place = some m.value) ∧
      (found.map Prod.snd).Nodup ∧ (records.map Match.path).Nodup := by
  obtain ⟨steps, ops, parsed, lowered, rfl⟩ := compile_eq_ok_iff.mp compiled
  have both := matched
  rw [← map_located] at both
  obtain ⟨found, located, rfl⟩ := map_eq_ok_iff.mp both
  obtain ⟨hs, reached, -, same⟩ := reached_of_records (Step.plain_of_lower lowered) matched
  have fits : ∀ step ∈ Step.afterRoot steps, step.KeysFit := by
    intro step mem
    rw [← Step.filter_eq_afterRoot parsed] at mem
    exact Step.keysFit_of_parse parsed step (List.mem_of_mem_filter mem)
  rw [Step.lower, Step.filter_eq_afterRoot parsed] at lowered
  obtain ⟨below, apart⟩ := scatter_of_descent proper lowered fits selects once _ [] hs
    (History.liesAt_root document) reached
  have places : (found.map Prod.fst).Pairwise fun m m' => m.place? document ≠ m'.place? document := by
    rw [same]
    exact List.pairwise_map.mpr apart
  have stands : ∀ m site, (m, site) ∈ found → ∃ place, site = .document place ∧
      m.place? document = some place ∧ document.at? place = some m.value := by
    intro m site mem
    refine place_of_mem_located proper located mem ?_
    have inMatches := List.mem_map_of_mem (f := Prod.fst) mem
    rw [same] at inMatches
    obtain ⟨h, h_mem, rfl⟩ := List.mem_map.mp inMatches
    obtain ⟨_, -, lies⟩ := below h h_mem
    exact lies.noCall
  refine ⟨found, located, rfl, ?_, ?_, ?_⟩
  · intro m site mem
    obtain ⟨place, here, -, value⟩ := stands m site mem
    exact ⟨place, here, value⟩
  · refine List.pairwise_map.mpr ((List.pairwise_map.mp places).imp_of_mem ?_)
    rintro ⟨m, site⟩ ⟨m', site'⟩ mem mem' differ rfl
    obtain ⟨place, here, leads, -⟩ := stands m site mem
    obtain ⟨place', here', leads', -⟩ := stands m' site mem'
    cases here.symm.trans here'
    exact differ (leads.trans leads'.symm)
  · rw [same]
    refine List.pairwise_map.mpr (List.pairwise_map.mpr (apart.imp_of_mem ?_))
    intro h h' mem mem' differ path
    obtain ⟨_, -, lies⟩ := below h mem
    obtain ⟨_, -, lies'⟩ := below h' mem'
    exact differ (lies.place?_eq_of_path lies' path)

/-- A wildcard, a descent and a wildcard again: the descent goes on from a node inside an array and from
one inside an object. -/
theorem nodup_sites_of_records_descent :
    let document := Json.obj [("a", .arr [.arr [.null]]), ("b", .obj [("a", .arr [])])]
    let steps : List Step := [.wildcard, .descent, .wildcard]
    let program := assemble "$.*..*" (.root :: steps) .default [.wildcard, .descent, .wildcard]
    let a := Label.key (.name "a")
    let zero := Label.key (.index 0)
    let records : List Match := [⟨[.root, a, zero], .arr [.null]⟩, ⟨[.root, a, zero, zero], .null⟩,
      ⟨[.root, .key (.name "b"), a], .arr []⟩]
    compile "$.*..*" .default = .ok program ∧ document.Proper ∧
      (∀ step ∈ Step.afterRoot program.steps, step.isSelector = true ∨ step = .descent) ∧
      (Step.afterRoot program.steps).count .descent ≤ 1 ∧
      program.records document none = .ok records ∧
      ∃ found, program.located document none = .ok found ∧ found.map Prod.fst = records ∧
        (∀ m site, (m, site) ∈ found →
          ∃ place, site = .document place ∧ document.at? place = some m.value) ∧
        (found.map Prod.snd).Nodup ∧ (records.map Match.path).Nodup := by
  intro document steps program a zero records
  have compiled : compile "$.*..*" .default = .ok program :=
    compile_eq_ok_iff.mpr ⟨_, _, by rfl, by rfl, rfl⟩
  have proper : document.Proper := by
    refine ⟨by decide, ⟨?_, ?_, trivial⟩, ⟨by decide, ?_, trivial⟩, trivial⟩
    · decide
    · exact ⟨by decide, trivial, trivial⟩
    · exact ⟨by decide, trivial⟩
  have selects : ∀ step ∈ Step.afterRoot program.steps,
      step.isSelector = true ∨ step = .descent := by
    show ∀ step ∈ steps, _
    decide
  have once : (Step.afterRoot program.steps).count .descent ≤ 1 := by
    show steps.count .descent ≤ 1
    decide
  have matched : program.records document none = .ok records := by
    rw [records_eq_recordsByHistory]
    rfl
  exact ⟨compiled, proper, selects, once, matched,
    nodup_sites_of_records compiled proper selects once matched⟩

end Program

end

end TreePath
