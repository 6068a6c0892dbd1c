/-
# Location — a canonical path tells a node from all others

Matches of two paths, with whatever functions and contexts, have the same canonical path exactly if they are
the same node of the document, however it was reached: `path_eq_iff_site_eq`.

* Keys that lead to the same child have the same text, so they are written the same.
* What is written is read back as the keys, in canonical form, so locations that are written the same have
  the same canonical keys (`Label.render_eq_render_iff`), and these lead to the same place.

The statement is about matches without calls.  A call has a result that is no node of the document.

Paths and sites come from different runs, and `Finds` is what they have in common: some path, with some
functions and in some context, has the match, which is the node at the site.
-/
import TreePath.Proofs.Program.Reselect

namespace TreePath

variable {document : Json} {context : Option Registry}

theorem Json.exists_of_placeFrom? {place last : List Nat} {keys : List Key}
    (leads : document.placeFrom? place keys = some last) :
    ∃ added, last = place ++ added ∧ added.length = keys.length := by
  induction keys generalizing place with
  | nil =>
      cases leads
      exact ⟨[], (List.append_nil _).symm, rfl⟩
  | cons key rest ih =>
      obtain ⟨_, position, _, _, leads⟩ := placeFrom?_cons_eq_some_iff.mp leads
      obtain ⟨added, rfl, length⟩ := ih leads
      refine ⟨position :: added, by rw [List.append_assoc]; rfl, ?_⟩
      rw [List.length_cons, length, List.length_cons]

/-- Sequences of keys that lead to the same place are the same in canonical form. -/
theorem Json.canonical_eq_of_placeFrom? {place last : List Nat} {keys keys' : List Key}
    (leads : document.placeFrom? place keys = some last)
    (leads' : document.placeFrom? place keys' = some last) :
    keys.map Key.canonical = keys'.map Key.canonical := by
  induction keys generalizing place keys' with
  | nil =>
      cases leads
      obtain ⟨added, same, length⟩ := exists_of_placeFrom? leads'
      rw [List.self_eq_append_right.mp same] at length
      rw [List.eq_nil_of_length_eq_zero length.symm]
  | cons key rest ih =>
      obtain ⟨owner, position, found, named, leads⟩ := placeFrom?_cons_eq_some_iff.mp leads
      obtain ⟨added, rfl, _⟩ := exists_of_placeFrom? leads
      cases keys' with
      | nil =>
          have same : place = place ++ [position] ++ added := Option.some.inj leads'
          rw [List.append_assoc] at same
          cases List.self_eq_append_right.mp same
      | cons key' rest' =>
          obtain ⟨owner', position', found', named', leads'⟩ := placeFrom?_cons_eq_some_iff.mp leads'
          rw [found] at found'
          cases found'
          obtain ⟨added', same, _⟩ := exists_of_placeFrom? leads'
          rw [List.append_assoc, List.append_assoc, List.append_cancel_left_eq] at same
          obtain ⟨rfl, rfl⟩ := List.cons.inj same
          rw [List.map_cons, List.map_cons, ih leads leads', Key.canonical, Key.canonical,
            Key.text_eq_of_position? named named']

theorem Label.render_eq_render_iff {keys keys' : List Key} (fits : ∀ k ∈ keys, k.Fits)
    (fits' : ∀ k ∈ keys', k.Fits) :
    render (.root :: keys.map .key) = render (.root :: keys'.map .key) ↔
      keys.map Key.canonical = keys'.map Key.canonical := by
  constructor
  · intro same
    have parsed := parse_render fits
    rw [same, parse_render fits'] at parsed
    have steps := (List.cons.inj (Except.ok.inj parsed)).2
    exact (List.map_injective_iff.mpr (fun _ _ => Step.property.inj) steps).symm
  · intro same
    rw [← render_canonical fits, same, render_canonical fits']

namespace Program

/-- Some path, with some functions and in some context, has the match, which is the node at the site. -/
inductive Finds (document : Json) (m : Match) (site : Site) : Prop
  | intro {expression : String} {options : Options} {program : Program} {context : Option Registry}
      {found : List (Match × Site)} :
      compile expression options = .ok program → options.functions.Proper →
      (∀ functions, context = some functions → functions.Proper) →
      program.located document context = .ok found → (m, site) ∈ found → Finds document m site

theorem Finds.exists_keys {m : Match} {site : Site} (finds : Finds document m site)
    (proper : document.Proper) (noCall : ∀ text, .call text ∉ m.labels) :
    ∃ keys place, (∀ k ∈ keys, k.Fits) ∧ m.labels = .root :: keys.map .key ∧
      site = .document place ∧ document.placeFrom? [] keys = some place := by
  obtain @⟨expression, options, program, context, found, compiled, options_proper, context_proper,
    located, mem⟩ := finds
  obtain ⟨place, rfl, leads, _⟩ := place_of_mem_located proper located mem noCall
  have matched := map_located document context program
  rw [located] at matched
  obtain ⟨h, regular, rfl⟩ := regular_of_compile context_proper proper compiled options_proper
    matched.symm m (List.mem_map.mpr ⟨_, mem, rfl⟩)
  obtain ⟨keys, labels, fits⟩ := regular.labels_eq noCall
  dsimp only at leads
  rw [labels, Label.filterMap_key?] at leads
  exact ⟨keys, place, fits, labels, rfl, leads⟩

theorem exists_finds_of_mem_records {expression : String} {options : Options} {program : Program}
    (compiled : compile expression options = .ok program)
    (options_proper : options.functions.Proper)
    (context_proper : ∀ functions, context = some functions → functions.Proper)
    {records : List Match} (matched : program.records document context = .ok records) {m : Match}
    (mem : m ∈ records) : ∃ site, Finds document m site := by
  rw [← map_located] at matched
  obtain ⟨found, located, rfl⟩ := map_eq_ok_iff.mp matched
  obtain ⟨⟨_, site⟩, both, rfl⟩ := List.mem_map.mp mem
  exact ⟨site, .intro compiled options_proper context_proper located both⟩

/-- Every match is found at a site, and two matches without calls, whatever paths found them, have the
same canonical path exactly if they are found at the same site. -/
theorem path_eq_iff_site_eq (proper : document.Proper) :
    (∀ (expression : String) (options : Options) (program : Program) (context : Option Registry),
      compile expression options = .ok program → options.functions.Proper →
      (∀ functions, context = some functions → functions.Proper) →
      ∀ records, program.records document context = .ok records →
        ∀ m ∈ records, ∃ site, Finds document m site) ∧
    ∀ (m m' : Match) (site site' : Site), Finds document m site → Finds document m' site' →
      (∀ text, .call text ∉ m.labels) → (∀ text, .call text ∉ m'.labels) →
      (m.path = m'.path ↔ site = site') := by
  constructor
  · intro expression options program context compiled options_proper context_proper records matched
    exact fun m => exists_finds_of_mem_records compiled options_proper context_proper matched
  · intro m m' site site' finds finds' noCall noCall'
    obtain ⟨keys, place, fits, labels, rfl, leads⟩ := finds.exists_keys proper noCall
    obtain ⟨keys', place', fits', labels', rfl, leads'⟩ := finds'.exists_keys proper noCall'
    rw [Match.path, Match.path, labels, labels', Label.render_eq_render_iff fits fits']
    constructor
    · intro same
      rw [← Json.placeFrom?_canonical fits, same, Json.placeFrom?_canonical fits', leads'] at leads
      rw [Option.some.inj leads]
    · intro same
      cases same
      exact Json.canonical_eq_of_placeFrom? leads leads'

/-- A member that is named by a numeral, by a wildcard and by an index. -/
theorem path_eq_iff_site_eq_numeral :
    let document := Json.obj [("a", .obj [("0", .null)])]
    let m : Match := ⟨[.root, .key (.name "a"), .key (.name "0")], .null⟩
    let m' : Match := ⟨[.root, .key (.name "a"), .key (.index 0)], .null⟩
    document.Proper ∧ m.path = m'.path ∧
      ∃ site, Finds document m site ∧ Finds document m' site := by
  intro document m m'
  have proper : document.Proper := by
    exact ⟨List.pairwise_singleton _ _, ⟨List.pairwise_singleton _ _, trivial, trivial⟩, trivial⟩
  have functions : Options.default.functions.Proper := by
    intro _ _ found
    cases found
  have compiled : compile "$.*.*" .default =
      .ok (assemble "$.*.*" [.root, .wildcard, .wildcard] .default [.wildcard, .wildcard]) :=
    compile_eq_ok_iff.mpr ⟨_, _, by rfl, by rfl, rfl⟩
  have compiled' : compile "$.a[0]" .default =
      .ok (assemble "$.a[0]" [.root, .property (.name "a"), .property (.index 0)] .default
        [.property (.name "a"), .property (.index 0)]) :=
    compile_eq_ok_iff.mpr ⟨_, _, by rfl, by rfl, rfl⟩
  obtain ⟨each, canonical⟩ := path_eq_iff_site_eq proper
  obtain ⟨site, finds⟩ := each _ _ _ none compiled functions (by rintro _ ⟨⟩) [m]
    (by rw [records_eq_recordsByHistory]; rfl) m List.mem_cons_self
  obtain ⟨site', finds'⟩ := each _ _ _ none compiled' functions (by rintro _ ⟨⟩) [m']
    (by rw [records_eq_recordsByHistory]; rfl) m' List.mem_cons_self
  have same : m.path = m'.path := by decide
  have here := (canonical m m' site site' finds finds' (Label.call_notMem [.name "a", .name "0"])
    (Label.call_notMem [.name "a", .index 0])).mp same
  exact ⟨proper, same, site, finds, here ▸ finds'⟩

end Program

end TreePath
