/-
# Reselect — a canonical path selects the node it was written for

The path of a match without calls is read back as one property step for each of its keys, in canonical form.
In the same document these lead to the same place, and to nothing else.

`reselects_of_records` says this of every match without calls, whatever expression found it: its canonical
path compiles to property steps and has one match, with the same site, the same value and the same path
(`Reselects`).

Three lemmas are put together: the path is read as the canonical keys (`compile_render`), properties go from
place to place (`answer_properties`), and canonical keys lead where the keys led
(`Json.placeFrom?_canonical`).
-/
import TreePath.Proofs.Program.Regular
import TreePath.Proofs.Trail.Places

namespace TreePath

variable {document : Json} {context : Option Registry}

theorem History.Regular.labels_eq {h : History} (regular : h.Regular document)
    (noCall : ∀ text, .call text ∉ h.labels) :
    ∃ keys : List Key, h.labels = .root :: keys.map .key ∧ ∀ k ∈ keys, k.Fits := by
  induction regular with
  | root => exact ⟨[], rfl, fun _ mem => nomatch mem⟩
  | @key h key child _ fits _ ih =>
      rw [History.labels_cons] at noCall ⊢
      obtain ⟨keys, eq, all⟩ := ih fun text mem => noCall text (List.mem_append_left _ mem)
      refine ⟨keys ++ [key], by rw [eq, List.map_append]; rfl, ?_⟩
      intro k mem
      rcases List.mem_append.mp mem with mem | mem
      · exact all k mem
      · exact List.mem_singleton.mp mem ▸ fits
  | @call h text value _ _ _ =>
      rw [History.labels_cons] at noCall
      exact absurd (List.mem_append_right _ List.mem_cons_self) (noCall text)

theorem Json.placeFrom?_canonical {keys : List Key} (fits : ∀ k ∈ keys, k.Fits) (place : List Nat) :
    document.placeFrom? place (keys.map Key.canonical) = document.placeFrom? place keys := by
  induction keys generalizing place with
  | nil => rfl
  | cons k rest ih =>
      have rest_eq := ih fun k mem => fits k (List.mem_cons_of_mem _ mem)
      ext last
      rw [List.map_cons, placeFrom?_cons_eq_some_iff, placeFrom?_cons_eq_some_iff]
      simp only [Key.position?_canonical (fits k List.mem_cons_self), rest_eq]

theorem Label.filterMap_key? (keys : List Key) :
    (Label.root :: keys.map .key).filterMap key? = keys := by
  rw [List.filterMap_cons, List.filterMap_map]
  exact List.filterMap_some

theorem Label.call_notMem (keys : List Key) (text : String) :
    .call text ∉ Label.root :: keys.map .key := by
  intro mem
  rcases List.mem_cons.mp mem with same | mem
  · cases same
  · obtain ⟨_, _, ⟨⟩⟩ := List.mem_map.mp mem

theorem Label.render_canonical {keys : List Key} (fits : ∀ k ∈ keys, k.Fits) :
    render (.root :: (keys.map Key.canonical).map .key) = render (.root :: keys.map .key) := by
  rw [render, render, List.map_cons, List.map_cons, List.map_map, List.map_map, List.map_map]
  have same : keys.map (fragment ∘ Label.key ∘ Key.canonical) = keys.map (fragment ∘ Label.key) :=
    List.map_congr_left fun k mem => Key.fragment_canonical (fits k mem)
  exact congrArg _ (congrArg _ same)

namespace Program

theorem answer_properties {keys : List Key} {place last : List Nat} {h : History}
    (found : document.placeFrom? place keys = some last)
    (current : document.at? place = some (h.value document)) (begun : h ≠ []) :
    ∃ value, document.at? last = some value ∧
      answer document context (keys.map .property ++ [.emit]) h =
        .ok [⟨h.labels ++ keys.map .key, value⟩] := by
  induction keys generalizing place h with
  | nil =>
      cases found
      refine ⟨_, current, ?_⟩
      rw [List.map_nil, List.map_nil, List.nil_append, List.append_nil, answer_emit begun]
  | cons key rest ih =>
      obtain ⟨owner, position, owner_at, named, found⟩ := Json.placeFrom?_cons_eq_some_iff.mp found
      rw [current] at owner_at
      cases owner_at
      obtain ⟨child, isAt⟩ := Json.exists_childAt?_of_position? named
      have child_at : document.at? (place ++ [position]) = some child := by
        rw [Json.at?_append, current]
        exact isAt
      have selected : key.child? (h.value document) = some child :=
        Option.bind_eq_some_iff.mpr ⟨position, named, isAt⟩
      obtain ⟨value, value_at, answered⟩ :=
        ih (h := (.key key, child) :: h) found child_at (by simp)
      refine ⟨value, value_at, ?_⟩
      rw [List.map_cons, List.cons_append, answer_property _ selected, answered]
      rw [History.labels_cons, List.append_assoc]
      rfl

theorem lower_properties (options : Options) (keys : List Key) :
    Step.lower options (keys.map .property) = .ok (keys.map .property) := by
  induction keys with
  | nil => rfl
  | cons key rest ih =>
      show Step.lower options ([.property key] ++ rest.map .property) = _
      rw [Step.lower_append, ih]
      rfl

def ofKeys (source : String) (keys : List Key) : Program :=
  assemble source (.root :: keys.map .property) .default (keys.map .property)

theorem compile_render {keys : List Key} (fits : ∀ k ∈ keys, k.Fits) :
    compile (Label.render (.root :: keys.map .key)) .default =
      .ok (ofKeys (Label.render (.root :: keys.map .key)) (keys.map Key.canonical)) := by
  refine compile_eq_ok_iff.mpr ⟨_, _, Label.parse_render fits, ?_, rfl⟩
  rw [Step.lower_root]
  exact lower_properties .default (keys.map Key.canonical)

/-- A path of properties has one match if its keys lead to a place, and the match is there. -/
theorem located_ofKeys (proper : document.Proper) (context : Option Registry) (source : String)
    {keys : List Key} {place : List Nat} (found : document.placeFrom? [] keys = some place) :
    ∃ m : Match, document.at? place = some m.value ∧ m.labels = .root :: keys.map .key ∧
      (ofKeys source keys).records document context = .ok [m] ∧
      (ofKeys source keys).located document context = .ok [(m, .document place)] := by
  obtain ⟨value, value_at, answered⟩ : ∃ value, document.at? place = some value ∧
      answer document context (keys.map .property ++ [.emit]) [(.root, document)] =
        .ok [⟨History.labels [(.root, document)] ++ keys.map .key, value⟩] :=
    answer_properties found rfl (by simp)
  have records : (ofKeys source keys).records document context =
      .ok [⟨.root :: keys.map .key, value⟩] := by
    rw [ofKeys, records_assemble, answered]
    rfl
  refine ⟨⟨.root :: keys.map .key, value⟩, value_at, rfl, records, ?_⟩
  rw [← map_located] at records
  obtain ⟨both, located, eq⟩ := map_eq_ok_iff.mp records
  obtain ⟨⟨m, site⟩, rfl, rfl⟩ := List.map_eq_singleton_iff.mp eq.symm
  obtain ⟨place', rfl, found', _⟩ :=
    place_of_mem_located proper located List.mem_cons_self (Label.call_notMem keys)
  rw [Label.filterMap_key?, found] at found'
  cases found'
  exact located

/-- The canonical path of a match compiles to one property step for each label after the root, and has
one match in the document: with the same site, the same value and the same canonical path. -/
def Reselects (document : Json) (m : Match) (site : Site) : Prop :=
  ∃ (again : Program) (keys : List Key), compile m.path .default = .ok again ∧
    again.steps = .root :: keys.map .property ∧ m.labels.length = keys.length + 1 ∧
    ∀ context, ∃ m' : Match, again.records document context = .ok [m'] ∧
      again.located document context = .ok [(m', site)] ∧ m'.value = m.value ∧ m'.path = m.path

/-- The canonical path of every match without calls selects the node of the match again, whatever
expression found it. -/
theorem reselects_of_records {expression : String} {options : Options} {program : Program}
    (compiled : compile expression options = .ok program)
    (document_proper : document.Proper) (options_proper : options.functions.Proper)
    (context_proper : ∀ functions, context = some functions → functions.Proper)
    {records : List Match} (matched : program.records document context = .ok records) :
    ∃ found, program.located document context = .ok found ∧ found.map Prod.fst = records ∧
      ∀ m site, (m, site) ∈ found → (∀ text, .call text ∉ m.labels) →
        Reselects document m site := by
  have both := matched
  rw [← map_located] at both
  obtain ⟨found, located, rfl⟩ := map_eq_ok_iff.mp both
  refine ⟨found, located, rfl, ?_⟩
  intro m site mem noCall
  obtain ⟨h, regular, rfl⟩ := regular_of_compile context_proper document_proper compiled
    options_proper matched m (List.mem_map.mpr ⟨_, mem, rfl⟩)
  obtain ⟨keys, labels, fits⟩ := regular.labels_eq noCall
  obtain ⟨place, rfl, leads, value_at⟩ :=
    place_of_mem_located document_proper located mem noCall
  have path : Match.path ⟨h.labels, h.value document⟩ = Label.render (.root :: keys.map .key) := by
    rw [Match.path, labels]
  dsimp only at leads
  rw [labels, Label.filterMap_key?, ← Json.placeFrom?_canonical fits] at leads
  refine ⟨_, keys.map Key.canonical, path ▸ compile_render fits, rfl, ?_, ?_⟩
  · rw [labels, List.length_cons, List.length_map, List.length_map]
  · intro context'
    obtain ⟨m', value_at', labels', records', located'⟩ :=
      located_ofKeys document_proper context' (Label.render (.root :: keys.map .key)) leads
    refine ⟨m', records', located', ?_, ?_⟩
    · rw [value_at] at value_at'
      exact (Option.some.inj value_at').symm
    · rw [path, Match.path, labels', Label.render_canonical fits]

/-- A name with a quote, and a name that is a numeral with a leading zero. -/
theorem reselects_quoted :
    let document := Json.obj [("it's", .obj [("01", .null)])]
    ∃ m : Match, m.path = "$['it\\'s']['01']" ∧ Reselects document m (.document [0, 0]) := by
  intro document
  let keys : List Key := [.name "it's", .name "01"]
  have fits : ∀ k ∈ keys, k.Fits := by
    intro k mem
    rcases List.mem_cons.mp mem with rfl | mem
    · trivial
    · rw [List.mem_singleton.mp mem]
      trivial
  have proper : document.Proper := by
    exact ⟨List.pairwise_singleton _ _, ⟨List.pairwise_singleton _ _, trivial, trivial⟩, trivial⟩
  have leads : document.placeFrom? [] (keys.map Key.canonical) = some [0, 0] := by
    rw [Json.placeFrom?_canonical fits]
    rfl
  obtain ⟨m, _, labels, matched, located⟩ :=
    located_ofKeys proper none (Label.render (.root :: keys.map .key)) leads
  have path : m.path = "$['it\\'s']['01']" := by
    rw [Match.path, labels, Label.render_canonical fits]
    decide
  have functions : Options.default.functions.Proper := by
    intro _ _ found
    cases found
  obtain ⟨found, located', _, each⟩ := reselects_of_records (compile_render fits) proper
    functions (by rintro _ ⟨⟩) matched
  rw [located] at located'
  cases located'
  exact ⟨m, path, each m _ List.mem_cons_self (labels ▸ Label.call_notMem _)⟩

end Program

end TreePath
