/-
# Requests — what is asked of a cache, the most recent first

Operations make a row of requests: one that succeeds goes to the front, and a clear empties the row.  A
request leaves the row only by a clear, and stands behind as many others as succeeded after it.

No programs and no capacity occur here.  A cache forgets the end of its row after each operation, and
`take_foldl_refresh` says that this makes no difference: a row that is cut after each operation has the
front of the full row.  So what a bounded cache still has can be read off the full row, and
`mem_take_foldl_refresh_iff` says it in terms of the operations alone: there was no clear since the request
succeeded, and fewer others than fit have succeeded after it.

Functions are compared by their identities.  `eq_of_request` says what that is worth: where identities tell
the functions of two requests apart, requests that are alike are for one expression with the same options.
-/
import Mathlib.Data.List.Dedup
import TreePath.Cache

namespace TreePath

def Registry.funcs (registry : Registry) : List Func :=
  registry.entries.map Prod.snd

namespace Cache

/-- What is done with a cache. -/
inductive Operation where
  | get (expression : String) (options : Options)
  | clear

/-- The request of a get that succeeds, since its expression compiles. -/
def Operation.request? : Operation → Option Request
  | .get expression options =>
    match Program.compile expression options with
    | .ok _ => some (.of expression options)
    | .error _ => none
  | .clear => none

theorem Operation.request?_of_ok {expression : String} {options : Options} {program : Program}
    (compiled : Program.compile expression options = .ok program) :
    (Operation.get expression options).request? = some (.of expression options) := by
  rw [request?, compiled]

/-- The functions that come with an operation. -/
def Operation.functions : Operation → List Func
  | .get _ options => options.functions.funcs
  | .clear => []

def requested (operations : List Operation) : List Request :=
  operations.filterMap Operation.request?

/-! ## Functions by their identities -/

theorem eq_of_map_identity {entries entries' : List (String × Func)}
    (same : entries.map (fun e => (e.1, e.2.identity)) =
      entries'.map fun e => (e.1, e.2.identity))
    (identified : ∀ e ∈ entries, ∀ e' ∈ entries', e.2.identity = e'.2.identity → e.2 = e'.2) :
    entries = entries' := by
  induction entries generalizing entries' with
  | nil => exact (List.map_eq_nil_iff.mp same.symm).symm
  | cons e entries ih =>
      cases entries' with
      | nil => cases same
      | cons e' entries' =>
          obtain ⟨first, rest⟩ := List.cons.inj same
          obtain ⟨name, identity⟩ := Prod.mk.inj first
          have eq : e = e' := Prod.ext name
            (identified e List.mem_cons_self e' List.mem_cons_self identity)
          rw [eq, ih rest fun a mem b mem' =>
            identified a (List.mem_cons_of_mem _ mem) b (List.mem_cons_of_mem _ mem')]

/-- If identities tell the functions of two requests apart, then these are for one expression with the same
options if they are alike. -/
theorem eq_of_request {expression expression' : String} {options options' : Options}
    (identified : ∀ f ∈ options.functions.funcs, ∀ g ∈ options'.functions.funcs,
      f.identity = g.identity → f = g)
    (same : Request.of expression options = .of expression' options') :
    expression = expression' ∧ options = options' := by
  obtain ⟨resultType, wrap, flatten, ⟨entries, ascending⟩⟩ := options
  obtain ⟨resultType', wrap', flatten', ⟨entries', ascending'⟩⟩ := options'
  injection same with expression_eq resultType_eq wrap_eq flatten_eq functions_eq
  have entries_eq : entries = entries' := eq_of_map_identity functions_eq
    fun e listed e' listed' =>
      identified _ (List.mem_map_of_mem listed) _ (List.mem_map_of_mem listed')
  cases expression_eq
  cases resultType_eq
  cases wrap_eq
  cases flatten_eq
  cases entries_eq
  exact ⟨rfl, rfl⟩

/-! ## Requests by recency -/

/-- The row of requests after an operation, where none is given up. -/
def refresh (requests : List Request) : Operation → List Request
  | .get expression options =>
    match (Operation.get expression options).request? with
    | some request => request :: requests.filter (· ≠ request)
    | none => requests
  | .clear => []

theorem refresh_of_some {operation : Operation} {request : Request}
    (succeeds : operation.request? = some request) (requests : List Request) :
    refresh requests operation = request :: requests.filter (· ≠ request) := by
  cases operation with
  | clear => cases succeeds
  | get expression options => rw [refresh, succeeds]

theorem refresh_of_none {operation : Operation} (fails : operation.request? = none)
    (notClear : operation ≠ .clear) (requests : List Request) :
    refresh requests operation = requests := by
  cases operation with
  | clear => exact absurd rfl notClear
  | get expression options => rw [refresh, fails]

theorem nodup_cons_filter {requests : List Request} (nodup : requests.Nodup) (request : Request) :
    (request :: requests.filter (· ≠ request)).Nodup :=
  List.nodup_cons.mpr ⟨by simp, nodup.filter _⟩

theorem nodup_refresh {requests : List Request} (nodup : requests.Nodup) (operation : Operation) :
    (refresh requests operation).Nodup := by
  cases operation with
  | clear => exact List.nodup_nil
  | get expression options =>
      rw [refresh]
      split
      · exact nodup_cons_filter nodup _
      · exact nodup

theorem nodup_foldl_refresh {requests : List Request} (nodup : requests.Nodup)
    (operations : List Operation) : (operations.foldl refresh requests).Nodup := by
  induction operations generalizing requests with
  | nil => exact nodup
  | cons operation operations ih => exact ih (nodup_refresh nodup operation)

/-- Taking one out of the first, it does not matter if more were left behind them. -/
theorem take_filter_take {requests : List Request} (nodup : requests.Nodup) (request : Request)
    (n : Nat) :
    ((requests.take (n + 1)).filter (· ≠ request)).take n =
      (requests.filter (· ≠ request)).take n := by
  induction requests generalizing n with
  | nil => rfl
  | cons first rest ih =>
      obtain ⟨notMem, rest_nodup⟩ := List.nodup_cons.mp nodup
      rw [List.take_succ_cons]
      by_cases same : first = request
      · have kept : ∀ l : List Request, l ⊆ rest → l.filter (· ≠ request) = l := by
          intro l sub
          refine List.filter_eq_self.mpr fun other mem => decide_eq_true ?_
          rintro rfl
          exact notMem (same ▸ sub mem)
        rw [List.filter_cons_of_neg (by simpa using same),
          List.filter_cons_of_neg (by simpa using same), kept _ (List.take_subset n rest),
          kept _ (List.Subset.refl rest), List.take_take, Nat.min_self]
      · rw [List.filter_cons_of_pos (by simpa using same),
          List.filter_cons_of_pos (by simpa using same)]
        cases n with
        | zero => rfl
        | succ n => rw [List.take_succ_cons, List.take_succ_cons, ih rest_nodup]

theorem take_refresh {requests : List Request} (nodup : requests.Nodup) (operation : Operation)
    (n : Nat) :
    (refresh (requests.take n) operation).take n = (refresh requests operation).take n := by
  cases succeeds : operation.request? with
  | some request =>
      rw [refresh_of_some succeeds, refresh_of_some succeeds]
      cases n with
      | zero => rfl
      | succ n => rw [List.take_succ_cons, List.take_succ_cons, take_filter_take nodup]
  | none =>
      cases operation with
      | clear => rfl
      | get expression options =>
          rw [refresh_of_none succeeds (by simp), refresh_of_none succeeds (by simp),
            List.take_take, Nat.min_self]

/-- What is given up at the end of the row is never missed at its front. -/
theorem take_foldl_refresh {requests : List Request} (nodup : requests.Nodup)
    (operations : List Operation) (n : Nat) :
    (operations.foldl refresh (requests.take n)).take n =
      (operations.foldl refresh requests).take n := by
  induction operations generalizing requests with
  | nil => rw [List.foldl_nil, List.foldl_nil, List.take_take, Nat.min_self]
  | cons operation operations ih =>
      have cut : (requests.take n).Nodup := nodup.sublist (List.take_sublist n requests)
      rw [List.foldl_cons, List.foldl_cons, ← ih (nodup_refresh cut operation),
        take_refresh nodup operation, ih (nodup_refresh nodup operation)]

theorem requested_cons (operation : Operation) (operations : List Operation) :
    requested (operation :: operations) =
      operation.request?.toList ++ requested operations := by
  rw [requested, List.filterMap_cons]
  cases operation.request? <;> rfl

theorem mem_refresh_iff {requests : List Request} {operation : Operation} {request : Request} :
    request ∈ refresh requests operation ↔
      operation.request? = some request ∨ operation ≠ .clear ∧ request ∈ requests := by
  cases succeeds : operation.request? with
  | some other =>
      have notClear : operation ≠ .clear := by
        rintro rfl
        cases succeeds
      rw [refresh_of_some succeeds, List.mem_cons, List.mem_filter, decide_eq_true_eq,
        Option.some_inj, eq_comm]
      constructor
      · rintro (same | ⟨mem, -⟩)
        · exact .inl same
        · exact .inr ⟨notClear, mem⟩
      · rintro (same | ⟨-, mem⟩)
        · exact .inl same
        · by_cases same : other = request
          · exact .inl same
          · exact .inr ⟨mem, Ne.symm same⟩
  | none =>
      cases operation with
      | clear => simp [refresh]
      | get expression options =>
          rw [refresh_of_none succeeds (by simp)]
          simp

theorem mem_of_mem_foldl_refresh {operations : List Operation} {requests : List Request}
    {request : Request} (mem : request ∈ operations.foldl refresh requests) :
    request ∈ requested operations ∨ .clear ∉ operations ∧ request ∈ requests := by
  induction operations generalizing requests with
  | nil => exact .inr ⟨List.not_mem_nil, mem⟩
  | cons operation operations ih =>
      rw [requested_cons, List.mem_append, Option.mem_toList]
      rcases ih mem with succeeded | ⟨notSince, mem⟩
      · exact .inl (.inr succeeded)
      · rcases mem_refresh_iff.mp mem with succeeds | ⟨notClear, mem⟩
        · exact .inl (.inl succeeds)
        · refine .inr ⟨?_, mem⟩
          rintro (_ | ⟨_, since⟩)
          · exact notClear rfl
          · exact notSince since

theorem mem_requested_of_mem_foldl_refresh {operations : List Operation} {request : Request}
    (mem : request ∈ operations.foldl refresh []) : request ∈ requested operations := by
  rcases mem_of_mem_foldl_refresh mem with succeeded | ⟨-, mem⟩
  · exact succeeded
  · cases mem

theorem mem_foldl_refresh_iff {operations : List Operation} (notCleared : .clear ∉ operations)
    {requests : List Request} {request : Request} :
    request ∈ operations.foldl refresh requests ↔
      request ∈ requested operations ∨ request ∈ requests := by
  induction operations generalizing requests with
  | nil => exact ⟨.inr, fun h => h.resolve_left List.not_mem_nil⟩
  | cons operation operations ih =>
      rw [List.mem_cons, not_or] at notCleared
      obtain ⟨notClear, notSince⟩ := notCleared
      rw [List.foldl_cons, ih notSince, mem_refresh_iff, requested_cons, List.mem_append,
        Option.mem_toList, and_iff_right (Ne.symm notClear), or_left_comm, or_assoc]

theorem length_foldl_refresh {operations : List Operation} (notCleared : .clear ∉ operations) :
    (operations.foldl refresh []).length = (requested operations).dedup.length := by
  refine List.Perm.length_eq ((List.perm_ext_iff_of_nodup
    (nodup_foldl_refresh List.nodup_nil operations) (List.nodup_dedup _)).mpr ?_)
  intro request
  rw [mem_foldl_refresh_iff notCleared, List.mem_dedup]
  exact or_iff_left List.not_mem_nil

/-- A request stays behind those that succeed after it. -/
theorem foldl_refresh_append {operations : List Operation} (notCleared : .clear ∉ operations)
    {request : Request} (notSince : request ∉ requested operations) (recent others : List Request) :
    ∃ others', operations.foldl refresh (recent ++ request :: others) =
      operations.foldl refresh recent ++ request :: others' := by
  induction operations generalizing recent others with
  | nil => exact ⟨others, rfl⟩
  | cons operation operations ih =>
      rw [List.mem_cons, not_or] at notCleared
      obtain ⟨notClear, notCleared⟩ := notCleared
      rw [requested_cons, List.mem_append, Option.mem_toList, not_or] at notSince
      rw [List.foldl_cons, List.foldl_cons]
      cases succeeds : operation.request? with
      | none =>
          have same := refresh_of_none succeeds (Ne.symm notClear)
          rw [same, same]
          exact ih notCleared notSince.2 recent others
      | some other =>
          have ne : request ≠ other := by
            rintro rfl
            exact notSince.1 succeeds
          rw [refresh_of_some succeeds, refresh_of_some succeeds, List.filter_append,
            List.filter_cons_of_pos (by simpa using ne), ← List.cons_append]
          exact ih notCleared notSince.2 _ _

theorem mem_take_foldl_refresh_iff {operations : List Operation} {request : Request}
    (notSince : request ∉ requested operations) (others : List Request) (capacity : Nat) :
    request ∈ (operations.foldl refresh (request :: others)).take capacity ↔
      .clear ∉ operations ∧ (requested operations).dedup.length < capacity := by
  by_cases cleared : .clear ∈ operations
  · refine iff_of_false ?_ fun h => h.1 cleared
    intro mem
    rcases mem_of_mem_foldl_refresh (List.mem_of_mem_take mem) with since | ⟨notCleared, -⟩
    · exact notSince since
    · exact notCleared cleared
  · have notRecent : request ∉ operations.foldl refresh [] :=
      fun mem => notSince (mem_requested_of_mem_foldl_refresh mem)
    obtain ⟨others', eq⟩ := foldl_refresh_append cleared notSince [] others
    rw [List.nil_append] at eq
    rw [eq, ← length_foldl_refresh cleared, List.take_append, List.mem_append]
    constructor
    · rintro (mem | mem)
      · exact absurd (List.mem_of_mem_take mem) notRecent
      · refine ⟨cleared, Nat.lt_of_sub_pos ?_⟩
        exact Nat.pos_of_ne_zero fun zero => by
          rw [zero] at mem
          cases mem
    · rintro ⟨-, fits⟩
      obtain ⟨k, eq⟩ := Nat.exists_eq_succ_of_ne_zero (Nat.sub_ne_zero_of_lt fits)
      rw [eq, List.take_succ_cons]
      exact .inr List.mem_cons_self

end Cache

end TreePath
