/-
# Recency — what a cache still has, and what it answers

A cache answers every get as the compiler does.  The requests that it has programs for are the front of the
row that the operations make (`Cache/Requests`), as long as its capacity.  So a program is handed out again
exactly as long as fewer other requests than fit have succeeded since.

## Identities

A cache compares functions by their identities.  A program that is kept holds its functions, so as long as it
is kept no other function can have their identities; once it was given up, one can.  `Identified` asks for no
more than this: whenever an operation comes, identities tell its functions from those of the programs that
are kept by then.  It is a condition on a run, not on all functions that ever come, and runs in which an
identity comes again after a clear or an eviction have it too.

## How it is proved

* `gets` has the three ways in which a get is answered: by a program that is kept, by a new one, or not.
* `Filled` is the invariant: every program was compiled for its request.  `Applies` is what one operation can
  make of a cache, and `Runs` what several can; each is kept by the operations, and holds of the empty cache.
* `Answered` is the reverse view: a get was answered, and these operations came since.  From it
  `Answered.eq_of_mem_entries` and `Answered.mem_requests_iff` tell whether the same program is still there.

`get_run` has all of this for a get after any operations on a new cache.
-/
import TreePath.Proofs.Cache.Requests
import TreePath.Proofs.Program.Compiled

namespace TreePath

namespace Cache

/-- A cache after an operation. -/
def apply (cache : Cache) : Operation → Cache
  | .get expression options => (cache.get expression options).2
  | .clear => cache.clear

def run (cache : Cache) (operations : List Operation) : Cache :=
  operations.foldl apply cache

theorem run_append (cache : Cache) (before after : List Operation) :
    cache.run (before ++ after) = (cache.run before).run after :=
  List.foldl_append

/-! ## Functions and their identities -/

/-- The functions of the programs that are kept. -/
def held (cache : Cache) : List Func :=
  cache.entries.flatMap fun entry => entry.2.program.options.functions.funcs

/-- Identities tell the functions that come with an operation from those of the kept programs. -/
def Tells (cache : Cache) (operation : Operation) : Prop :=
  ∀ f ∈ operation.functions, ∀ g ∈ cache.held, f.identity = g.identity → f = g

/-- Whenever one of the operations comes, identities tell its functions from those of the programs kept
by then. -/
def Identified : Cache → List Operation → Prop
  | _, [] => True
  | cache, operation :: rest => cache.Tells operation ∧ (cache.apply operation).Identified rest

theorem identified_append {cache : Cache} {before after : List Operation} :
    cache.Identified (before ++ after) ↔
      cache.Identified before ∧ (cache.run before).Identified after := by
  induction before generalizing cache with
  | nil => exact (iff_of_eq (true_and _)).symm
  | cons operation before ih => exact (and_congr_right fun _ => ih).trans and_assoc.symm

theorem functions_of_compile {expression : String} {options : Options} {program : Program}
    (compiled : Program.compile expression options = .ok program) :
    program.options.functions = options.functions := by
  obtain ⟨steps, ops, -, -, rfl⟩ := Program.compile_eq_ok_iff.mp compiled
  show (options.resolve _).functions = _
  rw [Options.resolve]
  split <;> rfl

/-! ## One get -/

inductive Gets (cache : Cache) (expression : String) (options : Options) :
    Except Fault Compiled × Cache → Prop
  | hit {compiled : Compiled} : cache.find? (.of expression options) = some compiled →
      Gets cache expression options (.ok compiled, cache.put (.of expression options) compiled)
  | failed {fault : Fault} : cache.find? (.of expression options) = none →
      Program.compile expression options = .error fault →
      Gets cache expression options (.error fault, cache)
  | compiled {program : Program} : cache.find? (.of expression options) = none →
      Program.compile expression options = .ok program →
      Gets cache expression options (.ok ⟨cache.count, program⟩,
        { cache with count := cache.count + 1 }.put (.of expression options)
          ⟨cache.count, program⟩)

theorem gets (cache : Cache) (expression : String) (options : Options) :
    cache.Gets expression options (cache.get expression options) := by
  rw [get]
  cases found : cache.find? (.of expression options) with
  | some compiled => exact .hit found
  | none =>
      cases compiled : Program.compile expression options with
      | error fault => exact .failed found compiled
      | ok program => exact .compiled found compiled

def requests (cache : Cache) : List Request :=
  cache.entries.map Prod.fst

theorem nodup_requests (cache : Cache) : cache.requests.Nodup :=
  cache.distinct

theorem length_requests_le (cache : Cache) : cache.requests.length ≤ cache.capacity := by
  rw [requests, List.length_map]
  exact cache.bounded

theorem mem_of_find? {cache : Cache} {request : Request} {compiled : Compiled}
    (found : cache.find? request = some compiled) : (request, compiled) ∈ cache.entries := by
  obtain ⟨before, rest, eq, -⟩ := List.lookup_eq_some_iff.mp found
  rw [eq]
  exact List.mem_append_right _ List.mem_cons_self

theorem find?_eq_none_iff {cache : Cache} {request : Request} :
    cache.find? request = none ↔ request ∉ cache.requests := by
  rw [find?, List.lookup_eq_none_iff, requests, List.mem_map]
  constructor
  · rintro none ⟨entry, mem, rfl⟩
    exact absurd rfl (bne_iff_ne.mp (none entry mem))
  · intro notMem entry mem
    exact bne_iff_ne.mpr fun same => notMem ⟨entry, mem, same.symm⟩

theorem requests_put (cache : Cache) (request : Request) (compiled : Compiled) :
    (cache.put request compiled).requests =
      (request :: cache.requests.filter (· ≠ request)).take cache.capacity := by
  show (cache.front request compiled).map Prod.fst = _
  rw [front, List.map_take, List.map_cons, requests, List.filter_map]
  rfl

theorem mem_entries_put {cache : Cache} {request : Request} {compiled : Compiled}
    {entry : Request × Compiled} (mem : entry ∈ (cache.put request compiled).entries) :
    entry = (request, compiled) ∨ entry ∈ cache.entries := by
  rcases List.mem_cons.mp (List.mem_of_mem_take mem) with eq | mem
  · exact .inl eq
  · exact .inr (List.mem_of_mem_filter mem)

theorem eq_of_mem_entries_put {cache : Cache} {request : Request} {compiled other : Compiled}
    (mem : (request, other) ∈ (cache.put request compiled).entries) : other = compiled := by
  rcases List.mem_cons.mp (List.mem_of_mem_take mem) with eq | mem
  · exact (Prod.mk.inj eq).2
  · exact absurd rfl (of_decide_eq_true (List.mem_filter.mp mem).2)

/-- The functions that are held came with the operation or were held before. -/
theorem mem_held_apply {cache : Cache} {operation : Operation} {f : Func}
    (mem : f ∈ (cache.apply operation).held) : f ∈ operation.functions ∨ f ∈ cache.held := by
  obtain ⟨entry, listed, held⟩ := List.mem_flatMap.mp mem
  cases operation with
  | clear => cases listed
  | get expression options =>
      have gets := cache.gets expression options
      rw [apply] at listed
      generalize cache.get expression options = get at gets listed
      cases gets with
      | hit found =>
          rcases mem_entries_put listed with rfl | before
          · exact .inr (List.mem_flatMap.mpr ⟨_, mem_of_find? found, held⟩)
          · exact .inr (List.mem_flatMap.mpr ⟨_, before, held⟩)
      | failed _ _ => exact .inr (List.mem_flatMap.mpr ⟨_, listed, held⟩)
      | compiled _ compiled =>
          rcases mem_entries_put listed with rfl | before
          · refine .inl ?_
            rw [functions_of_compile compiled] at held
            exact held
          · exact .inr (List.mem_flatMap.mpr ⟨_, before, held⟩)

/-- It is enough if identities tell all functions apart that ever come. -/
theorem identified_of_forall {cache : Cache} {operations : List Operation}
    (apart : ∀ f ∈ operations.flatMap Operation.functions,
      ∀ g ∈ cache.held ++ operations.flatMap Operation.functions, f.identity = g.identity → f = g) :
    cache.Identified operations := by
  induction operations generalizing cache with
  | nil => trivial
  | cons operation operations ih =>
      rw [List.flatMap_cons] at apart
      constructor
      · intro f mem g mem'
        exact apart f (List.mem_append_left _ mem) g (List.mem_append_left _ mem')
      · refine ih ?_
        intro f mem g mem'
        refine apart f (List.mem_append_right _ mem) g ?_
        rcases List.mem_append.mp mem' with held | later
        · rcases mem_held_apply held with came | before
          · exact List.mem_append_right _ (List.mem_append_left _ came)
          · exact List.mem_append_left _ before
        · exact List.mem_append_right _ (List.mem_append_right _ later)

/-! ## What operations do -/

/-- Every program of a cache was compiled for its request, and has a number below that of the next one. -/
structure Filled (cache : Cache) : Prop where
  compiled : ∀ request compiled, (request, compiled) ∈ cache.entries → ∃ expression options,
    request = .of expression options ∧ Program.compile expression options = .ok compiled.program
  counted : ∀ request compiled, (request, compiled) ∈ cache.entries →
    compiled.serial < cache.count

/-- What an operation can make of a cache. -/
inductive Applies (cache : Cache) (operation : Operation) : Cache → Prop
  | clear : operation = .clear → Applies cache operation cache.clear
  | failed : operation ≠ .clear → operation.request? = none → Applies cache operation cache
  | succeeded {expression : String} {options : Options} {compiled : Compiled} {count : Nat} :
      operation = .get expression options →
      Program.compile expression options = .ok compiled.program →
      cache.count ≤ count → compiled.serial < count →
      Applies cache operation ({ cache with count }.put (.of expression options) compiled)

theorem get_of_error {cache : Cache} {expression : String} {options : Options} {fault : Fault}
    (answer : (cache.get expression options).1 = .error fault) :
    (cache.get expression options).2 = cache := by
  have gets := cache.gets expression options
  generalize cache.get expression options = get at gets answer
  cases gets with
  | hit _ => cases answer
  | failed _ _ => rfl
  | compiled _ _ => cases answer

theorem mem_entries_of_get {cache : Cache} {expression : String} {options : Options}
    {compiled : Compiled} (answer : (cache.get expression options).1 = .ok compiled)
    (kept : .of expression options ∈ cache.requests) :
    (.of expression options, compiled) ∈ cache.entries := by
  have gets := cache.gets expression options
  generalize cache.get expression options = get at gets answer
  cases gets with
  | hit found =>
      cases answer
      exact mem_of_find? found
  | failed missing _ => exact absurd kept (find?_eq_none_iff.mp missing)
  | compiled missing _ => exact absurd kept (find?_eq_none_iff.mp missing)

theorem serial_of_get {cache : Cache} {expression : String} {options : Options}
    {compiled : Compiled} (answer : (cache.get expression options).1 = .ok compiled)
    (missing : .of expression options ∉ cache.requests) : compiled.serial = cache.count := by
  have gets := cache.gets expression options
  generalize cache.get expression options = get at gets answer
  cases gets with
  | hit found =>
      exact absurd (List.mem_map_of_mem (mem_of_find? found)) missing
  | failed _ _ => cases answer
  | compiled _ _ =>
      cases answer
      rfl

theorem filled_empty (capacity : Nat) : (empty capacity).Filled :=
  ⟨fun _ _ mem => (nomatch mem), fun _ _ mem => (nomatch mem)⟩

section

variable {cache : Cache} (filled : cache.Filled)

include filled

/-- A program that is handed out is put first, and is counted. -/
theorem Filled.get_eq_put {expression : String} {options : Options} {compiled : Compiled}
    (answer : (cache.get expression options).1 = .ok compiled) :
    ∃ count, (cache.get expression options).2 =
        { cache with count }.put (.of expression options) compiled ∧
      cache.count ≤ count ∧ compiled.serial < count := by
  have gets := cache.gets expression options
  generalize cache.get expression options = get at gets answer
  cases gets with
  | hit found =>
      cases answer
      exact ⟨cache.count, rfl, Nat.le_refl _, filled.counted _ _ (mem_of_find? found)⟩
  | failed _ _ => cases answer
  | compiled _ _ =>
      cases answer
      exact ⟨cache.count + 1, rfl, Nat.le_succ _, Nat.lt_succ_self _⟩

/-- A get is answered as the compiler answers: a program that is kept for the request holds the functions
of the request. -/
theorem Filled.map_get {expression : String} {options : Options}
    (tells : cache.Tells (.get expression options)) :
    (cache.get expression options).1.map Compiled.program =
      Program.compile expression options := by
  have gets := cache.gets expression options
  generalize cache.get expression options = get at gets
  cases gets with
  | hit found =>
      have kept := mem_of_find? found
      obtain ⟨_, _, same, compiled⟩ := filled.compiled _ _ kept
      obtain ⟨rfl, rfl⟩ := eq_of_request (fun f mem g mem' => tells f mem g
        (List.mem_flatMap.mpr ⟨_, kept, (functions_of_compile compiled).symm ▸ mem'⟩)) same
      exact compiled.symm
  | failed _ failed => exact failed.symm
  | compiled _ compiled => exact compiled.symm

theorem Filled.applies {operation : Operation} (tells : cache.Tells operation) :
    cache.Applies operation (cache.apply operation) := by
  cases operation with
  | clear => exact .clear rfl
  | get expression options =>
      have answers := filled.map_get tells
      cases answer : (cache.get expression options).1 with
      | ok compiled =>
          rw [answer] at answers
          obtain ⟨count, eq, le, lt⟩ := filled.get_eq_put answer
          rw [apply, eq]
          exact .succeeded rfl answers.symm le lt
      | error fault =>
          rw [answer] at answers
          rw [apply, get_of_error answer]
          refine .failed (by simp) ?_
          rw [Operation.request?, ← answers]
          rfl

end

section

variable {cache cache' : Cache} {operation : Operation}
  (applies : cache.Applies operation cache')

include applies

theorem Applies.capacity : cache'.capacity = cache.capacity := by
  cases applies <;> rfl

theorem Applies.count_le : cache.count ≤ cache'.count := by
  cases applies with
  | clear _ => exact Nat.le_refl _
  | failed _ _ => exact Nat.le_refl _
  | succeeded _ _ le _ => exact le

theorem Applies.requests :
    cache'.requests = (refresh cache.requests operation).take cache.capacity := by
  cases applies with
  | clear eq =>
      subst eq
      exact List.take_nil.symm
  | failed notClear fails =>
      rw [refresh_of_none fails notClear]
      exact (List.take_of_length_le cache.length_requests_le).symm
  | succeeded eq compiled _ _ =>
      subst eq
      rw [refresh_of_some (Operation.request?_of_ok compiled), requests_put]
      rfl

theorem Applies.mem_entries {request : Request} {compiled : Compiled}
    (mem : (request, compiled) ∈ cache'.entries) (other : operation.request? ≠ some request) :
    (request, compiled) ∈ cache.entries := by
  cases applies with
  | clear _ => cases mem
  | failed _ _ => exact mem
  | succeeded eq compiled _ _ =>
      rcases mem_entries_put mem with same | mem
      · cases same
        subst eq
        exact absurd (Operation.request?_of_ok compiled) other
      · exact mem

theorem Applies.filled (filled : cache.Filled) : cache'.Filled := by
  cases applies with
  | clear _ => exact ⟨fun _ _ mem => (nomatch mem), fun _ _ mem => (nomatch mem)⟩
  | failed _ _ => exact filled
  | succeeded eq compiled le lt =>
      subst eq
      constructor
      · intro request other entry
        rcases mem_entries_put entry with same | entry
        · cases same
          exact ⟨_, _, rfl, compiled⟩
        · exact filled.compiled request other entry
      · intro request other entry
        rcases mem_entries_put entry with same | entry
        · cases same
          exact lt
        · exact Nat.lt_of_lt_of_le (filled.counted request other entry) le

end

/-! ## Runs of operations -/

structure Runs (cache : Cache) (operations : List Operation) (cache' : Cache) : Prop where
  capacity : cache'.capacity = cache.capacity
  count_le : cache.count ≤ cache'.count
  requests : cache'.requests = (operations.foldl refresh cache.requests).take cache.capacity
  /-- The programs of requests that did not succeed were there before. -/
  mem_entries : ∀ {request : Request} {compiled : Compiled},
    (request, compiled) ∈ cache'.entries → request ∉ requested operations →
      (request, compiled) ∈ cache.entries

theorem Runs.nil (cache : Cache) : cache.Runs [] cache where
  capacity := rfl
  count_le := Nat.le_refl _
  requests := (List.take_of_length_le cache.length_requests_le).symm
  mem_entries := fun mem _ => mem

theorem Runs.cons {cache cache' last : Cache} {operation : Operation} {operations : List Operation}
    (applies : cache.Applies operation cache') (runs : cache'.Runs operations last) :
    cache.Runs (operation :: operations) last where
  capacity := runs.capacity.trans applies.capacity
  count_le := Nat.le_trans applies.count_le runs.count_le
  requests := by
    rw [runs.requests, applies.capacity, applies.requests, List.foldl_cons]
    exact take_foldl_refresh (nodup_refresh cache.nodup_requests operation) operations cache.capacity
  mem_entries := fun mem notRequested => by
    rw [requested_cons, List.mem_append, Option.mem_toList, not_or] at notRequested
    exact applies.mem_entries (runs.mem_entries mem notRequested.2) notRequested.1

section

variable {cache : Cache} (filled : cache.Filled) {operations : List Operation}
  (identified : cache.Identified operations)

include filled identified

theorem filled_run : (cache.run operations).Filled := by
  induction operations generalizing cache with
  | nil => exact filled
  | cons operation operations ih =>
      have applies := filled.applies identified.1
      exact ih (applies.filled filled) identified.2

theorem runs_run : cache.Runs operations (cache.run operations) := by
  induction operations generalizing cache with
  | nil => exact .nil cache
  | cons operation operations ih =>
      have applies := filled.applies identified.1
      exact .cons applies (ih (applies.filled filled) identified.2)

end

/-! ## What a new cache answers after operations -/

/-- Among operations on a new cache, a get for a request was answered by a program; it was followed by
the operations `since`. -/
def Answered (capacity : Nat) (operations : List Operation) (request : Request)
    (compiled : Compiled) (since : List Operation) : Prop :=
  ∃ before expression options, operations = before ++ .get expression options :: since ∧
    request = .of expression options ∧
    (((empty capacity).run before).get expression options).1 = .ok compiled

section

variable {capacity : Nat} {operations since : List Operation} {request : Request}
  {earlier : Compiled} (identified : (empty capacity).Identified operations)
  (answered : Answered capacity operations request earlier since)

include identified answered

theorem Answered.runs : ∃ cache : Cache, cache.capacity = capacity ∧ earlier.serial < cache.count ∧
    (cache.put request earlier).Runs since ((empty capacity).run operations) := by
  obtain ⟨before, expression, options, rfl, rfl, answer⟩ := answered
  obtain ⟨identified_before, tells, identified_since⟩ := identified_append.mp identified
  have filled := filled_run (filled_empty capacity) identified_before
  have capacity_eq : ((empty capacity).run before).capacity = capacity :=
    (runs_run (filled_empty capacity) identified_before).capacity
  have filled_next := (filled.applies tells).filled filled
  obtain ⟨count, eq, -, lt⟩ := filled.get_eq_put answer
  refine ⟨{ (empty capacity).run before with count }, capacity_eq, lt, ?_⟩
  rw [← eq, run_append]
  exact runs_run filled_next identified_since

theorem Answered.serial_lt : earlier.serial < ((empty capacity).run operations).count := by
  obtain ⟨cache, -, lt, runs⟩ := answered.runs identified
  exact Nat.lt_of_lt_of_le lt runs.count_le

variable (last : request ∉ requested since)

include last

/-- Its request is still there if it was not crowded out. -/
theorem Answered.mem_requests_iff : request ∈ ((empty capacity).run operations).requests ↔
    .clear ∉ since ∧ (requested since).dedup.length < capacity := by
  obtain ⟨cache, rfl, -, runs⟩ := answered.runs identified
  rw [runs.requests, requests_put]
  show request ∈ List.take cache.capacity _ ↔ _
  rw [take_foldl_refresh (nodup_cons_filter cache.nodup_requests request)]
  exact mem_take_foldl_refresh_iff last _ _

/-- If its request is still there, it is there with this program. -/
theorem Answered.eq_of_mem_entries {compiled : Compiled}
    (mem : (request, compiled) ∈ ((empty capacity).run operations).entries) :
    compiled = earlier := by
  obtain ⟨cache, -, -, runs⟩ := answered.runs identified
  exact eq_of_mem_entries_put (runs.mem_entries mem last)

end

/-- After operations on a new cache, it has no more programs than fit, each for another request.  A get
is answered as the compiler answers, and leaves the cache as it is if this is an error.  A program for a
request that never succeeded is new; otherwise it is the program that the last get for the request was
answered by if and only if there was no clear since then, and fewer other requests than fit have
succeeded. -/
theorem get_run (capacity : Nat) (operations : List Operation) (expression : String)
    (options : Options)
    (identified : (empty capacity).Identified (operations ++ [.get expression options])) :
    let cache := (empty capacity).run operations
    let request := Request.of expression options
    let answer := (cache.get expression options).1
    cache.size ≤ capacity ∧ cache.requests.Nodup ∧
      answer.map Compiled.program = Program.compile expression options ∧
      (∀ fault, answer = .error fault → (cache.get expression options).2 = cache) ∧
      ∀ compiled, answer = .ok compiled →
        (request ∉ requested operations → ∀ other earlier since,
          Answered capacity operations other earlier since → compiled.serial ≠ earlier.serial) ∧
        ∀ earlier since, Answered capacity operations request earlier since →
          request ∉ requested since →
          (compiled.serial = earlier.serial ↔
            .clear ∉ since ∧ (requested since).dedup.length < capacity) := by
  intro cache request answer
  obtain ⟨identified_before, tells, -⟩ := identified_append.mp identified
  have filled := filled_run (filled_empty capacity) identified_before
  have runs := runs_run (filled_empty capacity) identified_before
  have size_le : cache.size ≤ cache.capacity := cache.bounded
  rw [runs.capacity] at size_le
  refine ⟨size_le, cache.nodup_requests, filled.map_get tells, fun fault => get_of_error,
    fun compiled answer_eq => ⟨?_, ?_⟩⟩
  · intro never other earlier since answered
    have missing : request ∉ cache.requests := by
      intro kept
      rw [runs.requests] at kept
      exact never (mem_requested_of_mem_foldl_refresh (List.mem_of_mem_take kept))
    rw [serial_of_get answer_eq missing]
    exact Nat.ne_of_gt (answered.serial_lt identified_before)
  · intro earlier since answered last
    rw [← answered.mem_requests_iff identified_before last]
    constructor
    · intro same
      by_contra missing
      have lt := answered.serial_lt identified_before
      rw [← same, serial_of_get answer_eq missing] at lt
      exact Nat.lt_irrefl _ lt
    · intro kept
      rw [answered.eq_of_mem_entries identified_before last (mem_entries_of_get answer_eq kept)]

/-- Of a cache for two programs, one other request leaves the program there, and two do not.  After a clear
another function can have the identity of the first. -/
theorem get_run_two :
    let options := { Options.default with functions := Registry.empty.register "f" ⟨0, .ok⟩ }
    let reused :=
      { Options.default with functions := Registry.empty.register "f" ⟨0, fun _ => .ok .null⟩ }
    let a := Operation.get "$.a" options
    let b := Operation.get "$.b" options
    ∃ first again anew other : Compiled,
      ((empty 2).get "$.f()" options).1 = .ok first ∧
      (((empty 2).run [.get "$.f()" options, a]).get "$.f()" options).1 = .ok again ∧
      again.serial = first.serial ∧
      (((empty 2).run [.get "$.f()" options, a, b]).get "$.f()" options).1 = .ok anew ∧
      anew.serial ≠ first.serial ∧
      (((empty 2).run [.get "$.f()" options, .clear]).get "$.f()" reused).1 = .ok other ∧
      other.serial ≠ first.serial ∧ Program.compile "$.f()" reused = .ok other.program := by
  intro options reused a b
  have compiled_f : Program.compile "$.f()" options =
      .ok (.assemble "$.f()" [.root, .function "f"] options [.function "f" (some ⟨0, .ok⟩)]) :=
    Program.compile_eq_ok_iff.mpr ⟨_, _, by rfl, by rfl, rfl⟩
  have compiled_reused : Program.compile "$.f()" reused =
      .ok (.assemble "$.f()" [.root, .function "f"] reused
        [.function "f" (some ⟨0, fun _ => .ok .null⟩)]) :=
    Program.compile_eq_ok_iff.mpr ⟨_, _, by rfl, by rfl, rfl⟩
  have compiled_a : Program.compile "$.a" options =
      .ok (.assemble "$.a" [.root, .property (.name "a")] options [.property (.name "a")]) :=
    Program.compile_eq_ok_iff.mpr ⟨_, _, by rfl, by rfl, rfl⟩
  have compiled_b : Program.compile "$.b" options =
      .ok (.assemble "$.b" [.root, .property (.name "b")] options [.property (.name "b")]) :=
    Program.compile_eq_ok_iff.mpr ⟨_, _, by rfl, by rfl, rfl⟩
  have identified : ∀ operations : List Operation,
      (∀ operation ∈ operations, operation.functions = [⟨0, .ok⟩]) →
        (empty 2).Identified operations := by
    intro operations only
    refine identified_of_forall ?_
    have eq : ∀ f ∈ operations.flatMap Operation.functions, f = ⟨0, .ok⟩ := by
      intro f mem
      obtain ⟨operation, operation_mem, listed⟩ := List.mem_flatMap.mp mem
      rw [only operation operation_mem] at listed
      exact List.mem_singleton.mp listed
    exact fun f f_mem g g_mem _ => (eq f f_mem).trans (eq g g_mem).symm
  have functions : ∀ expression, (Operation.get expression options).functions = [⟨0, .ok⟩] :=
    fun _ => rfl
  obtain ⟨-, -, first_program, -⟩ :=
    get_run 2 [] "$.f()" options (identified _ (by simp [functions]))
  obtain ⟨-, -, again_program, -, again_last⟩ :=
    get_run 2 [.get "$.f()" options, a] "$.f()" options
      (identified _ (by simp [a, functions]))
  obtain ⟨-, -, anew_program, -, anew_last⟩ :=
    get_run 2 [.get "$.f()" options, a, b] "$.f()" options
      (identified _ (by simp [a, b, functions]))
  -- No program is kept when a function comes: at first none is there, and then none is left.
  obtain ⟨-, -, other_program, -, other_last⟩ :=
    get_run 2 [.get "$.f()" options, .clear] "$.f()" reused
      ⟨fun _ _ _ held => (nomatch held), fun _ mem => (nomatch mem),
        fun _ _ _ held => (nomatch held), trivial⟩
  obtain ⟨first, first_eq, -⟩ := map_eq_ok_iff.mp (first_program.trans compiled_f)
  obtain ⟨again, again_eq, -⟩ := map_eq_ok_iff.mp (again_program.trans compiled_f)
  obtain ⟨anew, anew_eq, -⟩ := map_eq_ok_iff.mp (anew_program.trans compiled_f)
  obtain ⟨other, other_eq, other_same⟩ := map_eq_ok_iff.mp (other_program.trans compiled_reused)
  have requested_a : requested [a] = [.of "$.a" options] := by
    rw [requested_cons, Operation.request?_of_ok compiled_a]
    rfl
  have requested_ab : requested [a, b] = [.of "$.a" options, .of "$.b" options] := by
    rw [requested_cons, Operation.request?_of_ok compiled_a, requested_cons,
      Operation.request?_of_ok compiled_b]
    rfl
  have kept := (again_last again again_eq).2 first [a] ⟨[], _, _, rfl, rfl, first_eq⟩
    (requested_a ▸ by decide)
  have evicted := (anew_last anew anew_eq).2 first [a, b] ⟨[], _, _, rfl, rfl, first_eq⟩
    (requested_ab ▸ by decide)
  -- Both functions have the identity 0, so the two requests are alike.
  have cleared := (other_last other other_eq).2 first [.clear] ⟨[], _, _, rfl, rfl, first_eq⟩
    (by decide)
  rw [requested_a] at kept
  rw [requested_ab] at evicted
  refine ⟨first, again, anew, other, first_eq, again_eq, kept.mpr ⟨by simp [a], by decide⟩, anew_eq,
    fun same => absurd (evicted.mp same).2 (by decide), other_eq,
    fun same => absurd (cleared.mp same).1 (by simp), ?_⟩
  rw [compiled_reused, other_same]

end Cache

end TreePath
