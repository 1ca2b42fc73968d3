import UpdateDispatch.Proofs.Filter.Predicate

/-!
# Shared predicates

Compiled predicates are kept for later calls. A cache that calls have grown is sound: it holds each
list of queries once, with the predicate that the list is compiled to (`Cache.sound_grown`), and
what it holds keeps its number. So the history of a call cannot be told from its outcome, except for
the number of the predicate, which is that of an earlier one exactly if the same queries were listed
then (`called_as_alone`).
-/

namespace UpdateDispatch.Filter

namespace Cache

variable {cache : Cache} {queries : List String} {argument : Json} {i : Nat} {p : Predicate}

/-! ## Calls and what they leave -/

/-- A call with an argument: the numbered predicate, and the cache after the call. -/
def call (cache : Cache) (argument : Json) : Except Fault (Nat × Predicate) × Cache :=
  match cacheKey argument with
  | .ok queries => cache.fetch queries
  | .error fault => (.error fault, cache)

/-- The cache after some calls. -/
def grown (cache : Cache) (arguments : List Json) : Cache :=
  arguments.foldl (fun cache argument => (cache.call argument).2) cache

theorem grown_append (cache : Cache) (before later : List Json) :
    cache.grown (before ++ later) = (cache.grown before).grown later := by
  unfold grown
  rw [List.foldl_append]

theorem grown_cons (cache : Cache) (argument : Json) (later : List Json) :
    cache.grown (argument :: later) = (cache.call argument).2.grown later := rfl

theorem find?_eq_some (h : cache.find? queries = some (i, p)) : cache[i]? = some (queries, p) := by
  unfold find? at h
  cases found : cache.findIdx? (·.1 == queries) with
  | none => simp [found] at h
  | some k =>
    obtain ⟨bound, key_eq, -⟩ := List.findIdx?_eq_some_iff_getElem.mp found
    simp only [found, List.getElem?_eq_getElem bound, Option.map_some, Option.some.injEq,
      Prod.mk.injEq] at h
    obtain ⟨rfl, value_eq⟩ := h
    rw [List.getElem?_eq_getElem bound, ← value_eq, ← eq_of_beq key_eq]

theorem find?_eq_none (h : cache.find? queries = none) : queries ∉ cache.map Prod.fst := by
  unfold find? at h
  cases found : cache.findIdx? (·.1 == queries) with
  | none =>
    intro mem
    obtain ⟨entry, held, key_eq⟩ := List.mem_map.mp mem
    have differs := List.findIdx?_eq_none_iff.mp found entry held
    simp [key_eq] at differs
  | some k =>
    obtain ⟨bound, -⟩ := List.findIdx?_eq_some_iff_getElem.mp found
    simp [found, List.getElem?_eq_getElem bound] at h

/-- A fetch finds a list of queries, or compiles and keeps it, or fails and keeps nothing. -/
theorem fetch_cases (cache : Cache) (queries : List String) :
    (∃ i p, cache[i]? = some (queries, p) ∧ cache.fetch queries = (.ok (i, p), cache)) ∨
      queries ∉ cache.map Prod.fst ∧
        ((∃ p, compileQueries queries = .ok p ∧
            cache.fetch queries = (.ok (cache.length, p), cache ++ [(queries, p)])) ∨
          ∃ fault, compileQueries queries = .error fault ∧
            cache.fetch queries = (.error fault, cache)) := by
  unfold fetch
  cases found : cache.find? queries with
  | some entry => exact .inl ⟨entry.1, entry.2, find?_eq_some found, rfl⟩
  | none =>
    refine .inr ⟨find?_eq_none found, ?_⟩
    cases compiled : compileQueries queries with
    | ok p => exact .inl ⟨p, rfl, rfl⟩
    | error fault => exact .inr ⟨fault, rfl, rfl⟩

/-! ## The invariant -/

/-- A cache with each list of queries at most once, and with the predicates they are compiled to. -/
structure Sound (cache : Cache) : Prop where
  compiled : ∀ entry ∈ cache, compileQueries entry.1 = .ok entry.2
  nodup : (cache.map Prod.fst).Nodup

theorem sound_nil : Sound [] where
  compiled := List.forall_mem_nil _
  nodup := List.nodup_nil

theorem Sound.append (sound : cache.Sound) (compiled : compileQueries queries = .ok p)
    (new : queries ∉ cache.map Prod.fst) : Sound (cache ++ [(queries, p)]) where
  compiled entry mem := by
    rcases List.mem_append.mp mem with mem | mem
    · exact sound.compiled entry mem
    · obtain rfl := List.mem_singleton.mp mem
      exact compiled
  nodup := by
    rw [List.map_append, List.nodup_append]
    refine ⟨sound.nodup, List.nodup_singleton queries, ?_⟩
    rintro key mem _ last rfl
    obtain rfl := List.mem_singleton.mp last
    exact new mem

theorem Sound.fetch (sound : cache.Sound) (queries : List String) :
    (cache.fetch queries).2.Sound := by
  rcases fetch_cases cache queries with
    ⟨i, p, -, fetched⟩ | ⟨new, ⟨p, compiled, fetched⟩ | ⟨fault, -, fetched⟩⟩
  · rwa [fetched]
  · rw [fetched]
    exact sound.append compiled new
  · rwa [fetched]

/-- What a fetch gives is what the list of queries is compiled to. -/
theorem Sound.map_fetch (sound : cache.Sound) (queries : List String) :
    (cache.fetch queries).1.map Prod.snd = compileQueries queries := by
  rcases fetch_cases cache queries with
    ⟨i, p, held, fetched⟩ | ⟨-, ⟨p, compiled, fetched⟩ | ⟨fault, failed, fetched⟩⟩
  · rw [fetched, sound.compiled _ (List.mem_of_getElem? held)]
    rfl
  · rw [fetched, compiled]
    rfl
  · rw [fetched, failed]
    rfl

theorem Sound.call (sound : cache.Sound) (argument : Json) : (cache.call argument).2.Sound := by
  unfold Cache.call
  split
  · exact sound.fetch _
  · exact sound

/-- Calls keep a cache sound. -/
theorem Sound.grown (sound : cache.Sound) (arguments : List Json) :
    (cache.grown arguments).Sound := by
  induction arguments generalizing cache with
  | nil => exact sound
  | cons argument rest ih => exact ih (sound.call argument)

theorem sound_grown (arguments : List Json) : Sound (Cache.grown [] arguments) :=
  sound_nil.grown arguments

/-! ## Numbers -/

theorem prefix_fetch (cache : Cache) (queries : List String) :
    cache <+: (cache.fetch queries).2 := by
  rcases fetch_cases cache queries with
    ⟨i, p, -, fetched⟩ | ⟨-, ⟨p, -, fetched⟩ | ⟨fault, -, fetched⟩⟩
  · rw [fetched]
  · rw [fetched]
    exact List.prefix_append _ _
  · rw [fetched]

theorem prefix_call (cache : Cache) (argument : Json) : cache <+: (cache.call argument).2 := by
  unfold call
  split
  · exact prefix_fetch cache _
  · exact List.prefix_rfl

/-- What a cache holds keeps its number. -/
theorem prefix_grown (cache : Cache) (arguments : List Json) : cache <+: cache.grown arguments := by
  induction arguments generalizing cache with
  | nil => exact List.prefix_rfl
  | cons argument rest ih => exact (prefix_call cache argument).trans (ih _)

/-- The cache holds what a fetch gives under the number that it gives. -/
theorem getElem?_of_fetch (fetched : (cache.fetch queries).1 = .ok (i, p)) :
    (cache.fetch queries).2[i]? = some (queries, p) := by
  rcases fetch_cases cache queries with
    ⟨j, q, held, fetched'⟩ | ⟨-, ⟨q, -, fetched'⟩ | ⟨fault, -, fetched'⟩⟩
  · rw [fetched'] at fetched ⊢
    cases fetched
    exact held
  · rw [fetched'] at fetched ⊢
    cases fetched
    exact List.getElem?_concat_length
  · rw [fetched'] at fetched
    cases fetched

theorem fetch_of_error {fault : Fault} (failed : (cache.fetch queries).1 = .error fault) :
    (cache.fetch queries).2 = cache := by
  rcases fetch_cases cache queries with
    ⟨i, p, -, fetched⟩ | ⟨-, ⟨p, -, fetched⟩ | ⟨fault, -, fetched⟩⟩
  · rw [fetched] at failed
    cases failed
  · rw [fetched] at failed
    cases failed
  · rw [fetched]

theorem getElem?_of_isPrefix {later : Cache} (kept : cache <+: later)
    (held : cache[i]? = some (queries, p)) : later[i]? = some (queries, p) := by
  obtain ⟨more, rfl⟩ := kept
  obtain ⟨bound, -⟩ := List.getElem?_eq_some_iff.mp held
  rw [List.getElem?_append_left bound, held]

/-- Two places of a sound cache are the same if they hold the same list of queries. -/
theorem Sound.eq_iff (sound : cache.Sound) {j : Nat} {others : List String} {q : Predicate}
    (held : cache[i]? = some (queries, p)) (held' : cache[j]? = some (others, q)) :
    i = j ↔ queries = others := by
  constructor
  · rintro rfl
    rw [held] at held'
    exact (Prod.mk.inj (Option.some.inj held')).1
  · rintro rfl
    obtain ⟨bound, -⟩ := List.getElem?_eq_some_iff.mp held
    have keys : (cache.map Prod.fst)[i]? = (cache.map Prod.fst)[j]? := by
      rw [List.getElem?_map, List.getElem?_map, held, held']
      rfl
    exact (List.getElem?_inj (by simpa using bound) sound.nodup).mp keys

theorem call_eq (lists : Lists argument queries) (cache : Cache) :
    cache.call argument = cache.fetch queries := by
  unfold call
  rw [lists.cacheKey_eq]

end Cache

theorem compile_parse (queries : List String) :
    compile ((parse queries).map (·.map some)) = compileQueries queries := by
  unfold parse compileQueries
  rw [List.map_map]
  rfl

/-- After any calls, a call with some queries gives what they are compiled to on their own. If that
is a fault, the call changes nothing and has the same fault after any further calls. If two calls of
a sequence succeed, they give predicates with the same number exactly if they list the same
queries. -/
theorem called_as_alone (before : List Json) {argument : Json} {queries : List String}
    (lists : Lists argument queries) :
    ((Cache.grown [] before).call argument).1.map Prod.snd =
        compile ((parse queries).map (·.map some)) ∧
      (∀ fault, ((Cache.grown [] before).call argument).1 = .error fault →
        ((Cache.grown [] before).call argument).2 = Cache.grown [] before ∧
          ∀ later, ((Cache.grown [] (before ++ argument :: later)).call argument).1 =
            .error fault) ∧
      ∀ between other others i p j q, Lists other others →
        ((Cache.grown [] before).call argument).1 = .ok (i, p) →
        ((Cache.grown [] (before ++ argument :: between)).call other).1 = .ok (j, q) →
        (i = j ↔ queries = others) := by
  have alone (calls : List Json) :
      ((Cache.grown [] calls).call argument).1.map Prod.snd = compileQueries queries := by
    rw [Cache.call_eq lists]
    exact (Cache.sound_grown calls).map_fetch queries
  refine ⟨by rw [alone, compile_parse], fun fault failed => ⟨?_, fun later => ?_⟩, ?_⟩
  · rw [Cache.call_eq lists] at failed ⊢
    exact Cache.fetch_of_error failed
  · -- the fault is that of the queries themselves
    have same := (alone before).symm.trans (congrArg (Except.map Prod.snd) failed)
    have again := alone (before ++ argument :: later)
    rw [same] at again
    cases outcome : ((Cache.grown [] (before ++ argument :: later)).call argument).1 with
    | ok found =>
      rw [outcome] at again
      cases again
    | error fault' =>
      rw [outcome] at again
      cases again
      rfl
  · intro between other others i p j q lists' first second
    have sound := ((Cache.sound_grown (before ++ argument :: between)).call other)
    rw [Cache.call_eq lists] at first
    rw [Cache.call_eq lists'] at second sound
    -- what the first call gave is still there after the second one
    have kept : ((Cache.grown [] before).fetch queries).2 <+:
        Cache.grown [] (before ++ argument :: between) := by
      rw [Cache.grown_append, Cache.grown_cons, Cache.call_eq lists]
      exact Cache.prefix_grown _ between
    have held := Cache.getElem?_of_isPrefix (kept.trans (Cache.prefix_fetch _ others))
      (Cache.getElem?_of_fetch first)
    exact sound.eq_iff held (Cache.getElem?_of_fetch second)

/-- A text listed twice is another list than the text itself, also after a query that is refused. -/
theorem called_as_alone_twice :
    ∃ p q, ((Cache.grown [] []).call (.str "message")).1 = .ok (0, p) ∧
      ((Cache.grown [] [.str "message", .str "media"]).call
        (.arr [.str "message", .str "message"])).1 = .ok (1, q) ∧
      (0 = 1 ↔ ["message"] = ["message", "message"]) := by
  have first : ((Cache.grown [] []).call (.str "message")).1 =
      .ok (0, ⟨[("message", [])]⟩) := by cbv
  have second : ((Cache.grown [] ([] ++ .str "message" :: [.str "media"])).call
      (.arr [.str "message", .str "message"])).1 = .ok (1, ⟨[("message", [])]⟩) := by cbv
  obtain ⟨-, -, shared⟩ := called_as_alone [] (.query "message")
  exact ⟨_, _, first, second,
    shared _ _ _ 0 _ 1 _ (.texts ["message", "message"]) first second⟩

end UpdateDispatch.Filter
