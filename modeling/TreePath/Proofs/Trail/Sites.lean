/-
# Sites — a branch never meets the same place twice

Every node on a branch lies at or above the newest one: at a shorter or equal place of the same tree, in the
document, or in the result of an earlier call.  A child of the newest node is below all of them, so recursive
descent never passes a container over: `Sound.onChain_eq_false`.

`Sound` is the invariant of a trail that carries this.  Every frame holds the document, a child of the node
before it, or the result of a call numbered by the frame itself (`Linked`), and results are frames.  It holds
of the empty trail and is kept by a push of any of these and by an emission; nothing else touches a trail.

What is known along a branch is proved by `Sound.branch_induction`, from before its first frame, each time with
one more frame on top.  Sites are ordered by `Above`, where results of calls come after everything that earlier
calls led to (`above_result`).
-/
import TreePath.Proofs.Trail.Frames

namespace TreePath

/-! ## Children of a node -/

namespace Node

/-- A child of a node with a key that lists it or names it. -/
structure IsChild (node : Node) (key : Key) (child : Node) : Prop where
  place : ∃ position value, child = node.below position value ∧
    node.value.childAt? position = some value ∧
    (node.value.children[position]? = some (key, value) ∨
      key.position? node.value = some position)

theorem value_below {node : Node} {position : Nat} {child : Json}
    (h : node.value.childAt? position = some child) :
    (node.below position child).value = child := by
  cases node with
  | placed place value => rfl
  | computed call result place =>
      cases found : result.at? place with
      | none =>
          simp only [value, found, Option.getD_none] at h
          cases h
      | some owner =>
          simp only [value, found, Option.getD_some] at h
          simp only [below, value, Json.at?_append, found, Option.bind_some, h, Option.getD_some]

theorem isChild_of_child? {node child : Node} {key : Key} (h : node.child? key = some child) :
    node.IsChild key child := by
  obtain ⟨position, named, h⟩ := Option.bind_eq_some_iff.mp h
  obtain ⟨value, found, h⟩ := Option.bind_eq_some_iff.mp h
  cases h
  exact ⟨position, value, rfl, found, Or.inr named⟩

theorem isChild_of_mem_children {node child : Node} {key : Key}
    (h : (key, child) ∈ node.children) : node.IsChild key child := by
  obtain ⟨⟨⟨k, value⟩, position⟩, mem, eq⟩ := List.mem_map.mp h
  cases eq
  have listed := List.mem_zipIdx_iff_getElem?.mp mem
  exact ⟨position, value, rfl, Json.childAt?_of_children listed, Or.inl listed⟩

theorem map_value_child? (node : Node) (key : Key) :
    (node.child? key).map value = key.child? node.value := by
  rw [child?, Key.child?]
  cases key.position? node.value with
  | none => rfl
  | some position =>
      simp only [Option.bind_some, Option.bind_eq_bind]
      cases found : node.value.childAt? position with
      | none => rfl
      | some child => exact congrArg some (value_below found)

theorem map_value_children (node : Node) :
    node.children.map (fun child => (child.1, child.2.value)) = node.value.children := by
  rw [children, List.map_map]
  refine Eq.trans (List.map_congr_left ?_) (List.zipIdx_map_fst 0 _)
  intro ⟨⟨key, child⟩, position⟩ mem
  have listed := List.mem_zipIdx_iff_getElem?.mp mem
  exact congrArg _ (value_below (Json.childAt?_of_children listed))

end Node

/-! ## The order of sites -/

namespace Site

/-- The place at a position below a site. -/
def below : Site → Nat → Site
  | .document place, position => .document (place ++ [position])
  | .result call place, position => .result call (place ++ [position])

/-- The number of the call whose result a site is in is at most `bound`. -/
def UpTo (bound : Nat) : Site → Prop
  | .document _ => True
  | .result call _ => call ≤ bound

/-- The first site is on the way to the second, if both are on one branch. -/
inductive Above : Site → Site → Prop
  | document {p q : List Nat} : p <+: q → Above (.document p) (.document q)
  | entered {p q : List Nat} {call : Nat} : Above (.document p) (.result call q)
  | within {p q : List Nat} {call : Nat} : p <+: q → Above (.result call p) (.result call q)
  | later {p q : List Nat} {earlier call : Nat} : earlier < call →
      Above (.result earlier p) (.result call q)

theorem Above.refl : ∀ (site : Site), Above site site
  | .document p => .document (List.prefix_refl p)
  | .result _ p => .within (List.prefix_refl p)

theorem Above.trans {a b c : Site} (h : Above a b) (h' : Above b c) : Above a c := by
  cases h with
  | document p =>
      cases h' with
      | document q => exact .document (p.trans q)
      | entered => exact .entered
  | entered =>
      cases h' with
      | within => exact .entered
      | later => exact .entered
  | within p =>
      cases h' with
      | within q => exact .within (p.trans q)
      | later lt => exact .later lt
  | later lt =>
      cases h' with
      | within => exact .later lt
      | later lt' => exact .later (Nat.lt_trans lt lt')

theorem above_below (site : Site) (position : Nat) : Above site (site.below position) := by
  cases site with
  | document p => exact .document (List.prefix_append p _)
  | result call p => exact .within (List.prefix_append p _)

theorem not_below_above (site : Site) (position : Nat) : ¬ Above (site.below position) site := by
  have longer : ∀ (p : List Nat), ¬ p ++ [position] <+: p := by
    intro p h
    have := h.length_le
    rw [List.length_append, List.length_singleton] at this
    omega
  intro h
  cases site with
  | document p =>
      cases h with
      | document q => exact longer p q
  | result call p =>
      cases h with
      | within q => exact longer p q
      | later lt => exact Nat.lt_irrefl _ lt

theorem upTo_below {bound : Nat} {site : Site} (position : Nat) (h : site.UpTo bound) :
    (site.below position).UpTo bound := by
  cases site with
  | document _ => trivial
  | result _ _ => exact h

theorem UpTo.mono {bound bound' : Nat} (le : bound ≤ bound') {site : Site} (h : site.UpTo bound) :
    site.UpTo bound' := by
  cases site with
  | document _ => trivial
  | result _ _ => exact Nat.le_trans h le

theorem above_result {bound call : Nat} {site : Site} (h : site.UpTo bound) (lt : bound < call) :
    Above site (.result call []) := by
  cases site with
  | document _ => exact .entered
  | result _ _ => exact .later (Nat.lt_of_le_of_lt h lt)

end Site

theorem Node.site_below (node : Node) (position : Nat) (child : Json) :
    (node.below position child).site = node.site.below position := by
  cases node <;> rfl

theorem Node.IsChild.site {node child : Node} {key : Key} (h : node.IsChild key child) :
    ∃ position, child.site = node.site.below position := by
  obtain ⟨position, value, rfl, -, -⟩ := h.place
  exact ⟨position, node.site_below position value⟩

/-! ## Sound trails -/

namespace Trail

section
variable (document : Json)

/-- How the frame with number `id` follows the one before it. -/
inductive Linked (t : Trail) (id : Nat) : Frame → Prop
  | root : Linked t id ⟨.ofDocument document, .root, none⟩
  | key {key : Key} {child : Node} {head : Option Nat} :
      (∀ parent, head = some parent → parent < id) →
      (t.current document ⟨head, 0⟩).IsChild key child →
      Linked t id ⟨child, .key key, head⟩
  | call {text : String} {result : Json} {head : Option Nat} :
      (∀ parent, head = some parent → parent < id) →
      Linked t id ⟨.ofResult id result, .call text, head⟩

/-- Every frame follows the one before it, and results are frames. -/
structure Sound (t : Trail) : Prop where
  linked : ∀ id frame, t.frames[id]? = some frame → t.Linked document id frame
  results : ∀ id ∈ t.results.toList, id < t.frames.size

end

variable {document : Json}

theorem Linked.parent_lt {t : Trail} {id : Nat} {frame : Frame} (h : t.Linked document id frame) :
    ∀ parent, frame.parent = some parent → parent < id := by
  cases h with
  | root => exact fun _ eq => nomatch eq
  | key smaller _ => exact smaller
  | call smaller => exact smaller

theorem Linked.grows {t t' : Trail} {id : Nat} {frame : Frame} (h : t.Linked document id frame)
    (g : t.Grows t') (le : id ≤ t.frames.size) : t'.Linked document id frame := by
  cases h with
  | root => exact .root
  | @key _ _ head smaller child =>
      have within : Cursor.Within ⟨head, 0⟩ t :=
        fun parent eq => Nat.lt_of_lt_of_le (smaller parent eq) le
      exact .key smaller (by rwa [g.current within])
  | call smaller => exact .call smaller

theorem Sound.empty : Sound document Trail.empty :=
  ⟨fun _ _ h => by simp [Trail.empty] at h, fun _ h => by simp [Trail.empty] at h⟩

theorem Sound.push {t : Trail} (sound : t.Sound document) {c : Cursor} {node : Node}
    {label : Label} (link : t.Linked document t.frames.size ⟨node, label, c.head⟩) :
    (t.push c node label).2.Sound document := by
  have g := t.grows_push c node label
  constructor
  · intro id frame found
    rcases getElem?_push_cases found with ⟨lt, found⟩ | ⟨rfl, rfl⟩
    · exact (sound.linked id frame found).grows g (Nat.le_of_lt lt)
    · exact link.grows g (Nat.le_refl _)
  · intro id mem
    rw [size_push]
    exact Nat.lt_succ_of_lt (sound.results id mem)

theorem Sound.emit {t : Trail} (sound : t.Sound document) {c : Cursor} (h : c.Within t) :
    (t.emit c).Sound document := by
  refine ⟨?_, lt_of_mem_emit h sound.results⟩
  intro id frame found
  rw [frames_emit] at found
  exact (sound.linked id frame found).grows (t.grows_emit c)
    (Nat.le_of_lt (Array.getElem?_eq_some_iff.mp found).1)

/-! ## The guard of recursive descent -/

/-- What the newest frame of a branch is: a document without a predecessor, or a successor. -/
theorem Sound.chain_cons {t : Trail} (sound : t.Sound document) {c : Cursor} {id : Nat}
    (h : c.Within t) (head : c.head = some id) :
    ∃ frame, t.frames[id]? = some frame ∧ t.Linked document id frame ∧
      t.chain c = frame :: t.chain ⟨frame.parent, c.step⟩ := by
  have found := Array.getElem?_eq_getElem (h id head)
  have link := sound.linked id _ found
  exact ⟨_, found, link, t.chain_of_head_some head found link.parent_lt⟩

/-- Induction along a branch: from before its first frame, each time with one more frame on top. -/
@[elab_as_elim]
theorem Sound.branch_induction {t : Trail} (sound : t.Sound document) {motive : Cursor → Prop}
    (start : ∀ c : Cursor, c.head = none → motive c)
    (frame : ∀ (c : Cursor) (id : Nat) (frame : Frame), c.head = some id →
      t.frames[id]? = some frame → t.Linked document id frame →
      t.chain c = frame :: t.chain ⟨frame.parent, c.step⟩ →
      motive ⟨frame.parent, c.step⟩ → motive c)
    {c : Cursor} (h : c.Within t) : motive c := by
  cases head : c.head with
  | none => exact start c head
  | some id =>
      induction id using Nat.strongRecOn generalizing c with
      | _ id ih =>
          obtain ⟨newest, found, link, chain⟩ := sound.chain_cons h head
          refine frame c id newest head found link chain ?_
          cases parent : newest.parent with
          | none => exact start _ rfl
          | some p =>
              have smaller := link.parent_lt p parent
              exact ih p smaller (.some (Nat.lt_trans smaller (h id head))) rfl

theorem current_of_getElem? {t : Trail} {c : Cursor} {id : Nat} {frame : Frame}
    (head : c.head = some id) (found : t.frames[id]? = some frame) :
    t.current document c = frame.node := by
  simp only [current, node?, head, Option.bind_some, found, Option.map_some, Option.getD_some]

theorem current_of_head_none {t : Trail} {c : Cursor} (head : c.head = none) :
    t.current document c = .ofDocument document := by
  simp only [current, node?, head, Option.bind_none, Option.map_none, Option.getD_none]

/-- Going back to the parent drops the newest entry of a history, unless it is the last. -/
theorem Sound.parent?_eq {t : Trail} (sound : t.Sound document) {c : Cursor} (h : c.Within t) :
    (t.parent? c = none ∧ (t.history c).tail = []) ∨
      ∃ above, t.parent? c = some above ∧ above.Within t ∧ t.history above = (t.history c).tail ∧
        (t.history c).tail ≠ [] := by
  cases head : c.head with
  | none =>
      refine Or.inl ⟨by simp only [parent?, head]; rfl, ?_⟩
      rw [history, t.chain_of_head_none head]
      rfl
  | some id =>
      obtain ⟨frame, found, link, chain⟩ := sound.chain_cons h head
      have tail : (t.history c).tail = t.history ⟨frame.parent, c.step⟩ := by
        rw [history, chain, List.map_cons, List.tail_cons, history]
      rw [tail]
      cases parent : frame.parent with
      | none =>
          refine Or.inl ⟨by simp only [parent?, head, Option.bind_some, found]; simp [parent], ?_⟩
          rw [history, t.chain_of_head_none rfl]
          rfl
      | some p =>
          have above : Cursor.Within ⟨some p, c.step⟩ t :=
            .some (Nat.lt_trans (link.parent_lt p parent) (h id head))
          refine Or.inr ⟨⟨some p, c.step⟩, ?_, above, rfl, ?_⟩
          · simp only [parent?, head, Option.bind_some, found]
            simp [parent]
          · rw [history, ne_eq, List.map_eq_nil_iff, chain_eq_nil_iff above]
            exact Option.some_ne_none p

/-- The newest node of a branch is in the result of a call that `id` bounds, and all nodes of the branch
are above it. -/
def Topmost (document : Json) (t : Trail) (id : Nat) (c : Cursor) : Prop :=
  (t.current document c).site.UpTo id ∧
    ∀ frame ∈ t.chain c, frame.node.site.Above (t.current document c).site

theorem above_of_before (document : Json) {t : Trail} {before : Cursor} {site : Site}
    (each : ∀ id, before.head = some id →
      t.Topmost document id before ∧ (t.current document before).site.Above site) :
    ∀ frame ∈ t.chain before, frame.node.site.Above site := by
  intro frame mem
  cases head : before.head with
  | none =>
      rw [t.chain_of_head_none head] at mem
      cases mem
  | some id =>
      obtain ⟨topmost, above⟩ := each id head
      exact (topmost.2 frame mem).trans above

theorem upTo_current {t : Trail} {before : Cursor} {id : Nat}
    (each : ∀ p, before.head = some p → p < id ∧ t.Topmost document p before) :
    (t.current document before).site.UpTo id := by
  cases head : before.head with
  | none =>
      rw [current_of_head_none head]
      trivial
  | some p =>
      obtain ⟨lt, topmost⟩ := each p head
      exact topmost.1.mono (Nat.le_of_lt lt)

theorem Sound.topmost {t : Trail} (sound : t.Sound document) {c : Cursor} (h : c.Within t) :
    ∀ id, c.head = some id → t.Topmost document id c := by
  refine sound.branch_induction ?_ ?_ h
  · intro c none id head
    rw [none] at head
    cases head
  · intro c id frame head found link chain above id' eq
    rw [head] at eq
    cases eq
    rw [Topmost, current_of_getElem? head found, chain]
    have before : ∀ p, frame.parent = some p →
        p < id ∧ t.Topmost document p ⟨frame.parent, c.step⟩ :=
      fun p parent => ⟨link.parent_lt p parent, above p parent⟩
    cases link with
    | root =>
        refine ⟨trivial, ?_⟩
        intro f mem
        rw [t.chain_of_head_none rfl, List.mem_singleton] at mem
        exact mem ▸ .refl _
    | @key key child parent smaller isChild =>
        obtain ⟨position, site⟩ := isChild.site
        have below : child.site = (t.current document ⟨parent, c.step⟩).site.below position := site
        constructor
        · rw [below]
          exact Site.upTo_below position (upTo_current before)
        · intro f mem
          rcases List.mem_cons.mp mem with rfl | mem
          · exact .refl _
          · refine above_of_before document ?_ f mem
            intro p eq
            exact ⟨(before p eq).2, below ▸ Site.above_below _ position⟩
    | @call text result parent smaller =>
        refine ⟨Nat.le_refl id, ?_⟩
        intro f mem
        rcases List.mem_cons.mp mem with rfl | mem
        · exact .refl _
        · refine above_of_before document ?_ f mem
          intro p eq
          exact ⟨(before p eq).2, Site.above_result (before p eq).2.1 (smaller p eq)⟩

/-- A child of the current node of a branch is not on the branch. -/
theorem Sound.onChain_eq_false {t : Trail} (sound : t.Sound document) {c : Cursor}
    (h : c.Within t) {key : Key} {child : Node}
    (isChild : (t.current document c).IsChild key child) : t.onChain c child = false := by
  rw [onChain, List.any_eq_false]
  intro frame mem
  rw [decide_eq_true_eq]
  intro same
  cases head : c.head with
  | none =>
      rw [t.chain_of_head_none head] at mem
      cases mem
  | some id =>
      obtain ⟨position, site⟩ := isChild.site
      have above := (sound.topmost h id head).2 frame mem
      rw [same, site] at above
      exact Site.not_below_above _ position above

end Trail

end TreePath
