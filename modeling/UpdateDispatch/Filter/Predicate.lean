import UpdateDispatch.Filter.Tree
import UpdateDispatch.Json.Access

/-!
# Compiled predicates

`compile` turns split queries into a predicate and `matchFilter` a query or a list of queries.
Compiled predicates are kept in a `Cache` by their exact list of queries: equal lists give the same
predicate, told apart from others by its number, and a query that is refused is not kept.
-/

namespace UpdateDispatch.Filter

/-- A compiled filter. -/
structure Predicate where
  tree : Tree
  deriving DecidableEq, Repr, Inhabited

/-- Whether an update passes the filter for a bot with the given number. -/
def Predicate.test (p : Predicate) (update me : Json) : Bool := p.tree.test update me

/-- The predicate of a list of split queries. -/
def compile (parsed : List Parts) : Except Fault Predicate := do
  let found ← parsed.mapM paths
  match Tree.ofPaths found.flatten with
  | [] => .error (.query .noPath)
  | tree => .ok ⟨tree⟩

/-- The predicate of a list of queries. -/
def compileQueries (queries : List String) : Except Fault Predicate := compile (queries.map parts)

/-- The queries of an argument that may be looked up in a cache: none of them may be a list or an
object. -/
def cacheKey (argument : Json) : Except Fault (List String) := do
  let vs ← (← listed argument).mapM Json.asKey
  vs.mapM queryText

/-- The predicate of a query or of a list of queries. -/
def matchFilter (argument : Json) : Except Fault Predicate := do
  compileQueries (← cacheKey argument)

/-- The predicates compiled so far, in order, each with its list of queries. -/
abbrev Cache := List (List String × Predicate)

/-- The predicate that a cache holds for a list of queries, with its number. -/
def Cache.find? (cache : Cache) (queries : List String) : Option (Nat × Predicate) :=
  match cache.findIdx? (·.1 == queries) with
  | some i => cache[i]?.map fun entry => (i, entry.2)
  | none => none

/-- The numbered predicate of a list of queries, from the cache or compiled and then kept. -/
def Cache.fetch (cache : Cache) (queries : List String) :
    Except Fault (Nat × Predicate) × Cache :=
  match cache.find? queries with
  | some found => (.ok found, cache)
  | none =>
    match compileQueries queries with
    | .ok p => (.ok (cache.length, p), cache ++ [(queries, p)])
    | .error fault => (.error fault, cache)

end UpdateDispatch.Filter
