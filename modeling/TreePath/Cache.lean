/-
# Cache — compiled programs, kept for expressions that come again

A request is an expression with its options; two requests are alike if they also hold the very same
functions.  The cache keeps a bounded number of programs, and gives up the one that was not asked for the
longest.  Expressions that do not compile leave it as it is.

## Representation

The entries are a list, the most recent first.  That there is one entry for each request (`distinct`) and
that there are no more than the capacity (`bounded`) are fields of the structure: a cache without them cannot
be built.  Every operation that keeps a program goes through `front`, which puts an entry in front, drops the
older one for the same request and cuts the list.

Programs are numbered as they are compiled, and go on to be numbered after a `clear`, so that one from the
cache can be told from one that was compiled again.
-/
import TreePath.Program.Compile

namespace TreePath

/-- What a program was compiled for. -/
structure Request where
  expression : String
  resultType : ResultType
  wrap : Wrap
  flatten : Bool
  functions : List (String × Nat)
deriving DecidableEq

/-- The request for an expression under options. -/
def Request.of (expression : String) (options : Options) : Request :=
  ⟨expression, options.resultType, options.wrap, options.flatten, options.functions.identities⟩

/-- A compiled program, with the number of programs that the cache compiled before it. -/
structure Compiled where
  serial : Nat
  program : Program
deriving Inhabited

/-- Programs by request, the most recent first. -/
structure Cache where
  capacity : Nat
  entries : List (Request × Compiled)
  /-- How many programs were compiled so far. -/
  count : Nat
  bounded : entries.length ≤ capacity
  distinct : (entries.map Prod.fst).Nodup

namespace Cache

def defaultCapacity : Nat := 256

def empty (capacity : Nat) : Cache :=
  ⟨capacity, [], 0, Nat.zero_le _, .nil⟩

instance : Inhabited Cache := ⟨empty defaultCapacity⟩

def clear (cache : Cache) : Cache :=
  { empty cache.capacity with count := cache.count }

def size (cache : Cache) : Nat :=
  cache.entries.length

def isEmpty (cache : Cache) : Bool :=
  cache.entries.isEmpty

/-- The program kept for a request. -/
def find? (cache : Cache) (request : Request) : Option Compiled :=
  cache.entries.lookup request

/-- The entries with one of them put in front, cut to the capacity. -/
def front (cache : Cache) (request : Request) (compiled : Compiled) : List (Request × Compiled) :=
  ((request, compiled) :: cache.entries.filter (·.1 ≠ request)).take cache.capacity

theorem distinct_front (cache : Cache) (request : Request) (compiled : Compiled) :
    ((cache.front request compiled).map Prod.fst).Nodup := by
  refine List.Nodup.sublist ((List.take_sublist _ _).map _) (List.nodup_cons.2 ⟨?_, ?_⟩)
  · simp
  · exact cache.distinct.sublist (List.filter_sublist.map _)

/-- Keeps a program as the most recent one, in the place of one for the same request. -/
def put (cache : Cache) (request : Request) (compiled : Compiled) : Cache :=
  { cache with
    entries := cache.front request compiled
    bounded := List.length_take_le _ _
    distinct := cache.distinct_front request compiled }

/-- The program for an expression, from the cache or compiled now, and the cache afterwards. -/
def get (cache : Cache) (expression : String) (options : Options) :
    Except Fault Compiled × Cache :=
  let request := Request.of expression options
  match cache.find? request with
  | some hit => (.ok hit, cache.put request hit)
  | none =>
    match Program.compile expression options with
    | .error fault => (.error fault, cache)
    | .ok program =>
      let compiled : Compiled := ⟨cache.count, program⟩
      (.ok compiled, { cache with count := cache.count + 1 }.put request compiled)

end Cache

end TreePath
