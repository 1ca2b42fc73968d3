import UpdateDispatch.Context.Basic
import UpdateDispatch.Proofs.Filter.Merge
import UpdateDispatch.Proofs.Json.Reading

/-!
# What a list of queries accepts

A list of queries is accepted if it has a query and each of them denotes a path, and its predicate
is the tree of all these paths. So a context passes it exactly if the update satisfies a maximal
path. A path that is a proper prefix of another one is lost in the tree: the predicate of a list is
the union of those of its queries exactly if there is no such path.
-/

namespace UpdateDispatch.Filter

/-! ## Accepted lists -/

/-- The arguments that list some queries: a text lists itself, and a list its texts. -/
inductive Lists : Json → List String → Prop
  | query (q : String) : Lists (.str q) [q]
  | texts (queries : List String) : Lists (.arr (queries.map .str)) queries

theorem cacheKey_texts (queries : List String) :
    cacheKey (.arr (queries.map .str)) = .ok queries := by
  have hkeys : (queries.map Json.str).mapM Json.asKey = .ok (queries.map Json.str) := by
    rw [mapM_ok Json.asKey id, List.map_id]
    simp [Json.asKey, Json.isKey]
  have htexts : (queries.map Json.str).mapM queryText = .ok queries := by
    rw [List.mapM_map, mapM_ok _ id, List.map_id]
    exact fun _ _ => rfl
  unfold cacheKey
  simp only [listed, bind, Except.bind, hkeys, htexts]

theorem Lists.cacheKey_eq {argument : Json} {queries : List String}
    (lists : Lists argument queries) : cacheKey argument = .ok queries := by
  cases lists with
  | query q => exact cacheKey_texts [q]
  | texts => exact cacheKey_texts queries

theorem Lists.matchFilter_eq {argument : Json} {queries : List String}
    (lists : Lists argument queries) : matchFilter argument = compileQueries queries := by
  unfold matchFilter
  rw [lists.cacheKey_eq]
  rfl

theorem matchFilter_texts (queries : List String) :
    matchFilter (.arr (queries.map .str)) = compileQueries queries :=
  (Lists.texts queries).matchFilter_eq

theorem matchFilter_text (query : String) : matchFilter (.str query) = compileQueries [query] :=
  (Lists.query query).matchFilter_eq

/-- The predicate of a list of paths. -/
def Predicate.ofPaths (paths : List (List String)) : Predicate :=
  ⟨Tree.ofPaths (paths.map (·.map some))⟩

theorem isPath_of_mem_flatMap_denoted {queries : List String} {path : List String}
    (h : path ∈ queries.flatMap denoted) : IsPath path := by
  obtain ⟨_, _, hpath⟩ := List.mem_flatMap.mp h
  exact isPath_of_mem_denoted hpath

theorem ofPaths_denoted_ne_nil {queries : List String} (hne : queries ≠ [])
    (h : ∀ q ∈ queries, denoted q ≠ []) :
    Tree.ofPaths ((queries.flatMap denoted).map (·.map some)) ≠ [] := by
  rw [ofPaths_map_some fun path hpath => (isPath_of_mem_flatMap_denoted hpath).ne_nil, Ne,
    foldl_put_eq_nil_iff]
  intro hall
  obtain ⟨q, hq⟩ := List.exists_mem_of_ne_nil _ hne
  obtain ⟨path, hpath⟩ := List.exists_mem_of_ne_nil _ (h q hq)
  have hmem : path ∈ queries.flatMap denoted := List.mem_flatMap.mpr ⟨q, hq, hpath⟩
  exact (isPath_of_mem_flatMap_denoted hmem).ne_nil (hall path hmem)

/-- Exactly the lists with a query, each of whose queries denotes a path, are compiled. -/
theorem compileQueries_eq_ok_iff {queries : List String} {p : Predicate} :
    compileQueries queries = .ok p ↔
      queries ≠ [] ∧ (∀ q ∈ queries, denoted q ≠ []) ∧
        p = Predicate.ofPaths (queries.flatMap denoted) := by
  unfold compileQueries compile
  by_cases h : ∀ q ∈ queries, denoted q ≠ []
  · have hflatten : (queries.map fun q => (denoted q).map (·.map some)).flatten =
        (queries.flatMap denoted).map (·.map some) := by
      rw [List.map_flatMap, List.flatMap_def]
    simp only [mapM_paths_of_denoted h, bind, Except.bind, hflatten]
    by_cases hne : queries = []
    · subst hne
      simp [Tree.ofPaths]
    · have htree := ofPaths_denoted_ne_nil hne h
      split
      · next hnil => exact absurd hnil htree
      · constructor
        · exact fun hp => ⟨hne, h, (Except.ok.inj hp).symm⟩
        · rintro ⟨-, -, rfl⟩
          rfl
  · obtain ⟨cause, hcause⟩ := mapM_paths_of_not_denoted (by simpa using h)
    rw [hcause]
    simp [bind, Except.bind, h]

theorem map_tokens_texts (queries : List String) :
    ((queries.flatMap denoted).map (joined ":")).map tokens = queries.flatMap denoted := by
  rw [List.map_map]
  refine (List.map_congr_left fun path hpath => ?_).trans (List.map_id _)
  obtain ⟨_, _, hmem⟩ := List.mem_flatMap.mp hpath
  exact tokens_joined_of_mem_denoted hmem

/-! ## What a list accepts -/

theorem passes_ofPaths_iff (queries : List String) (c : Context) :
    c.passes (Predicate.ofPaths (queries.flatMap denoted)) = true ↔
      ∃ path, Maximal (queries.flatMap denoted) path ∧ Satisfies c.update c.me.id path :=
  test_ofPaths_iff (fun _ hpath =>
    have hp := isPath_of_mem_flatMap_denoted hpath
    ⟨hp.ne_nil, hp.length_le⟩) c.update c.me.id

/-- A context passes an accepted list of queries exactly if its update satisfies some path of the
list that is no proper prefix of another one. -/
theorem passes_iff_satisfies_maximal {queries : List String} {p : Predicate}
    (h : matchFilter (.arr (queries.map .str)) = .ok p) :
    ∃ texts, expand queries = .ok texts ∧
      ∀ c : Context, c.passes p = true ↔
        ∃ path, Maximal (texts.map tokens) path ∧ Satisfies c.update c.me.id path := by
  rw [matchFilter_texts, compileQueries_eq_ok_iff] at h
  obtain ⟨-, hdenoted, rfl⟩ := h
  refine ⟨_, expand_of_denoted hdenoted, fun c => ?_⟩
  rw [map_tokens_texts]
  exact passes_ofPaths_iff queries c

/-- A message about a member who has left, with a number of its own and a field named `me`. -/
def flaggedMember : Context :=
  { update := .obj [("message", .obj [("left_chat_member",
      .obj [("id", .int 7), ("me", .bool true)])])]
    me := { id := .int 42 } }

theorem passes_iff_satisfies_maximal_of_refined :
    ∃ texts, expand ["message", "message:left_chat_member:me", "message"] = .ok texts ∧
      (flaggedMember.passes ⟨[("message", [("left_chat_member", ["me"])])]⟩ = true ↔
        ∃ path, Maximal (texts.map tokens) path ∧
          Satisfies flaggedMember.update flaggedMember.me.id path) := by
  have h : matchFilter (.arr (["message", "message:left_chat_member:me", "message"].map .str)) =
      .ok ⟨[("message", [("left_chat_member", ["me"])])]⟩ := by cbv
  obtain ⟨texts, htexts, hpasses⟩ := passes_iff_satisfies_maximal h
  exact ⟨texts, htexts, hpasses flaggedMember⟩

/-- A field named `me` does not make up for another number: below `me` nothing but the number of the
bot counts, although any other tag passes by a field of its name. -/
theorem flagged_member_does_not_pass :
    matchFilter (.arr (["message:left_chat_member:me"].map .str)) =
      .ok ⟨[("message", [("left_chat_member", ["me"])])]⟩ ∧
    expand ["message:left_chat_member:me"] = .ok ["message:left_chat_member:me"] ∧
    (flaggedMember.update.field "message").truthy = true ∧
    ((flaggedMember.update.field "message").field "left_chat_member").truthy = true ∧
    (∃ item ∈ ((flaggedMember.update.field "message").field "left_chat_member").listed,
      item.isNull = false ∧ (item.field "me").truthy = true) ∧
    flaggedMember.passes ⟨[("message", [("left_chat_member", ["me"])])]⟩ = false := by
  refine ⟨by cbv, by cbv, rfl, rfl, ⟨_, List.mem_singleton_self _, rfl, rfl⟩, by cbv⟩

/-! ## Lists and their queries -/

/-- Whether a context passes one of some queries on its own. -/
def AnyPasses (queries : List String) (c : Context) : Prop :=
  ∃ q ∈ queries, ∃ own, matchFilter (.str q) = .ok own ∧ c.passes own = true

theorem matchFilter_of_denoted {query : String} (h : denoted query ≠ []) :
    matchFilter (.str query) = .ok (Predicate.ofPaths (denoted query)) := by
  rw [matchFilter_text, compileQueries_eq_ok_iff]
  simp [h]

theorem length_of_mem_denoted {query : String} {path : List String} (h : path ∈ denoted query) :
    path.length = (tokens query).length := by
  rcases mem_combinations (List.mem_filter.mp h).1 with
    ⟨kind, k, hts, rfl, -⟩ | ⟨kind, field, k, f, rest, hts, rfl, -⟩
  all_goals rw [hts]; rfl

theorem maximal_denoted_iff {query : String} {path : List String} :
    Maximal (denoted query) path ↔ path ∈ denoted query := by
  refine and_iff_left_of_imp fun hpath other hother hstart => (hstart.eq_of_length ?_).symm
  rw [length_of_mem_denoted hpath, length_of_mem_denoted hother]

/-- A context passes a query exactly if its update satisfies one of the paths of the query. -/
theorem passes_query_iff (query : String) (c : Context) :
    c.passes (Predicate.ofPaths (denoted query)) = true ↔
      ∃ path ∈ denoted query, Satisfies c.update c.me.id path := by
  have hone := passes_ofPaths_iff [query] c
  simp only [List.flatMap_singleton, maximal_denoted_iff] at hone
  exact hone

theorem anyPasses_iff {queries : List String} (h : ∀ q ∈ queries, denoted q ≠ []) (c : Context) :
    AnyPasses queries c ↔
      ∃ path ∈ queries.flatMap denoted, Satisfies c.update c.me.id path := by
  unfold AnyPasses
  constructor
  · rintro ⟨q, hq, own, hmatch, hpass⟩
    rw [matchFilter_of_denoted (h q hq)] at hmatch
    cases hmatch
    obtain ⟨path, hpath, hsat⟩ := (passes_query_iff q c).mp hpass
    exact ⟨path, List.mem_flatMap.mpr ⟨q, hq, hpath⟩, hsat⟩
  · rintro ⟨path, hpath, hsat⟩
    obtain ⟨q, hq, hmem⟩ := List.mem_flatMap.mp hpath
    exact ⟨q, hq, _, matchFilter_of_denoted (h q hq), (passes_query_iff q c).mpr ⟨path, hmem, hsat⟩⟩

/-- An update with nothing but the names of a path, one inside the other. -/
def bare : List String → Json
  | [] => .obj []
  | name :: rest => .obj [(name, bare rest)]

@[simp]
theorem field_bare_cons (name : String) (rest : List String) (other : String) :
    (bare (name :: rest)).field other = if other = name then bare rest else .null := by
  by_cases h : other = name <;> simp [bare, Json.field, Named.find?, h, Ne.symm]

theorem isNull_bare (path : List String) : (bare path).isNull = false := by
  cases path <;> rfl

theorem truthy_bare (path : List String) : (bare path).truthy = !path.isEmpty := by
  cases path <;> rfl

/-- A field of a bare update that is not null is the first name of its path. -/
theorem eq_cons_of_field_bare {path : List String} {name : String}
    (h : (bare path).field name ≠ .null) : ∃ rest, path = name :: rest := by
  rcases path with _ | ⟨first, rest⟩
  · exact absurd rfl h
  · rw [field_bare_cons] at h
    split at h
    · next hname => exact ⟨rest, by rw [hname]⟩
    · exact absurd rfl h

theorem satisfies_bare {path : List String} (hne : path ≠ []) (hlen : path.length ≤ 2)
    (me : Json) : Satisfies (bare path) me path := by
  rcases path with _ | ⟨kind, _ | ⟨field, _ | ⟨tag, rest⟩⟩⟩
  · exact absurd rfl hne
  · simp [Satisfies, isNull_bare]
  · simp [Satisfies, isNull_bare, truthy_bare]
  · simp at hlen

theorem prefix_of_satisfies_bare {path other : List String} {me : Json} (hlen : path.length ≤ 2)
    (h : Satisfies (bare path) me other) : other <+: path := by
  rcases other with _ | ⟨kind, _ | ⟨field, tail⟩⟩
  · exact List.nil_prefix
  · obtain ⟨rest, rfl⟩ := eq_cons_of_field_bare (Json.isNull_eq_false_iff.mp h)
    exact List.prefix_append [kind] rest
  rw [satisfies_cons_cons] at h
  obtain ⟨rest, rfl⟩ := eq_cons_of_field_bare (Json.ne_null_of_truthy h.1)
  have hfield := h.2
  rw [field_bare_cons, if_pos rfl] at hfield
  rcases tail with _ | ⟨tag, _ | ⟨more, tail⟩⟩
  · obtain ⟨rest, rfl⟩ := eq_cons_of_field_bare (Json.isNull_eq_false_iff.mp hfield)
    exact List.prefix_append [kind, field] rest
  · -- a tag needs a field that counts as true, and so a third name in the path
    obtain ⟨rest, rfl⟩ := eq_cons_of_field_bare (Json.ne_null_of_truthy hfield.1)
    have htruthy := hfield.1
    rw [field_bare_cons, if_pos rfl, truthy_bare] at htruthy
    rcases rest with _ | ⟨third, rest⟩
    · cases htruthy
    · simp at hlen
  · exact hfield.elim

/-- Every query of an accepted list is accepted on its own, and what passes the list passes one of
them. The converse holds exactly if no path of the list is a proper prefix of another one. -/
theorem list_is_union_iff {queries : List String} {p : Predicate}
    (h : matchFilter (.arr (queries.map .str)) = .ok p) :
    (∀ q ∈ queries, ∃ own, matchFilter (.str q) = .ok own) ∧
    (∀ c : Context, c.passes p = true → AnyPasses queries c) ∧
    ∃ texts, expand queries = .ok texts ∧
      ((∀ c : Context, c.passes p = true ↔ AnyPasses queries c) ↔
        ∀ path ∈ texts.map tokens, Maximal (texts.map tokens) path) := by
  rw [matchFilter_texts, compileQueries_eq_ok_iff] at h
  obtain ⟨-, hdenoted, rfl⟩ := h
  simp only [passes_ofPaths_iff, anyPasses_iff hdenoted]
  refine ⟨fun q hq => ⟨_, matchFilter_of_denoted (hdenoted q hq)⟩,
    fun c ⟨path, hmax, hsat⟩ => ⟨path, hmax.1, hsat⟩, _, expand_of_denoted hdenoted, ?_⟩
  rw [map_tokens_texts]
  constructor
  · intro hunion path hpath
    refine ⟨hpath, fun other hother hstart => ?_⟩
    by_cases hlen : path.length ≤ 2
    · -- the bare update of the path satisfies prefixes of it only
      have hne := (isPath_of_mem_flatMap_denoted hpath).ne_nil
      obtain ⟨longest, hmax, hsat⟩ := (hunion { update := bare path, me := default }).mpr
        ⟨path, hpath, satisfies_bare hne hlen _⟩
      obtain rfl := hmax.2 path hpath (prefix_of_satisfies_bare hlen hsat)
      exact hmax.2 other hother hstart
    · refine (hstart.eq_of_length_le ?_).symm
      have hother' := (isPath_of_mem_flatMap_denoted hother).length_le
      omega
  · exact fun hall c => ⟨fun ⟨path, hmax, hsat⟩ => ⟨path, hmax.1, hsat⟩,
      fun ⟨path, hpath, hsat⟩ => ⟨path, hall path hpath, hsat⟩⟩

/-- Queries without a common path prefix are a union. -/
theorem list_is_union_of_disjoint :
    matchFilter (.arr (["callback_query:data", "message:text"].map .str)) =
      .ok ⟨[("callback_query", [("data", [])]), ("message", [("text", [])])]⟩ ∧
    ∀ c : Context,
      c.passes ⟨[("callback_query", [("data", [])]), ("message", [("text", [])])]⟩ = true ↔
        AnyPasses ["callback_query:data", "message:text"] c := by
  have h : matchFilter (.arr (["callback_query:data", "message:text"].map .str)) =
      .ok ⟨[("callback_query", [("data", [])]), ("message", [("text", [])])]⟩ := by cbv
  obtain ⟨-, -, texts, htexts, hunion⟩ := list_is_union_iff h
  have hexpand : expand ["callback_query:data", "message:text"] =
      .ok ["callback_query:data", "message:text"] := by cbv
  rw [hexpand] at htexts
  cases htexts
  have htokens : ["callback_query:data", "message:text"].map tokens =
      [["callback_query", "data"], ["message", "text"]] := by cbv
  refine ⟨h, hunion.mpr ?_⟩
  rw [htokens]
  simp [Maximal]

/-- A message with a photo and no text. -/
def photoMessage : Context :=
  { update := .obj [("message", .obj [("photo", .arr [.int 1])])]
    me := { id := .int 42 } }

/-- A message without a text passes `message`, but no longer once `message:text` is listed too. -/
theorem refined_query_is_lost :
    AnyPasses ["message", "message:text"] photoMessage ∧
    matchFilter (.arr (["message", "message:text"].map .str)) =
      .ok ⟨[("message", [("text", [])])]⟩ ∧
    photoMessage.passes ⟨[("message", [("text", [])])]⟩ = false := by
  refine ⟨⟨"message", by simp, ⟨[("message", [])]⟩, by cbv, by cbv⟩, by cbv, by cbv⟩

end UpdateDispatch.Filter
