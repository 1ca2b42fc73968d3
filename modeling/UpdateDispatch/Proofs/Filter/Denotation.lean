import UpdateDispatch.Proofs.Filter.Expansion
import UpdateDispatch.Filter.Predicate

/-!
# The texts that a query is expanded to

`expand` gives the paths that its queries denote as texts, query by query (`expand_of_denoted`), and
refuses a list in which some query denotes none. No text comes twice for one query, and the tokens
of a text are the names of its path again (`tokens_joined_of_mem_denoted`).
-/

namespace UpdateDispatch.Filter

/-! ## Names and texts -/

theorem text_map_some (names : List String) : Parts.text (names.map some) = joined ":" names := by
  unfold Parts.text
  rw [trim_map_some, List.filterMap_map]
  simp

theorem colonFree_of_shortcut :
    (∀ shortcut ∈ kindShortcuts, ∀ kind ∈ shortcut.2, ColonFree kind) ∧
      ∀ shortcut ∈ fieldShortcuts, ∀ field ∈ shortcut.2, ColonFree field := by decide

theorem fieldChoices_cases (field : String) (tag : Option String) :
    fieldChoices field tag = [field] ∨
      ∃ shortcut ∈ fieldShortcuts, fieldChoices field tag = shortcut.2 := by
  rcases h : opens field tag with _ | _
  · exact .inl (fieldChoices_of_not_opens h)
  · exact .inr ⟨_, (fieldChoices_of_opens h).1, rfl⟩

theorem colonFree_of_mem_kindChoices {kind k : String} {later : List String}
    (hkind : ColonFree kind) (hk : k ∈ kindChoices kind later) : ColonFree k := by
  rcases kindChoices_cases kind later with h | ⟨shortcut, hmem, h⟩
  · obtain rfl : k = kind := by simpa [h] using hk
    exact hkind
  · exact colonFree_of_shortcut.1 shortcut hmem k (h ▸ hk)

theorem colonFree_of_mem_fieldChoices {field f : String} {tag : Option String}
    (hfield : ColonFree field) (hf : f ∈ fieldChoices field tag) : ColonFree f := by
  rcases fieldChoices_cases field tag with h | ⟨shortcut, hmem, h⟩
  · obtain rfl : f = field := by simpa [h] using hf
    exact hfield
  · exact colonFree_of_shortcut.2 shortcut hmem f (h ▸ hf)

/-- The combinations of one token, of two or three tokens, and of more. -/
theorem mem_combinations {ts names : List String} (h : names ∈ combinations ts) :
    (∃ kind k, ts = [kind] ∧ names = [k] ∧ k ∈ kindChoices kind []) ∨
      ∃ kind field k f rest, ts = kind :: field :: rest ∧ names = k :: f :: rest ∧
        rest.length ≤ 1 ∧ k ∈ kindChoices kind (field :: rest) ∧
        f ∈ fieldChoices field rest[0]? := by
  rcases ts with _ | ⟨kind, _ | ⟨field, rest⟩⟩
  · cases h
  · obtain ⟨k, hk, rfl⟩ := List.mem_map.mp h
    exact .inl ⟨kind, k, rfl, rfl, hk⟩
  · have hrest : rest.length ≤ 1 := by
      rcases rest with _ | ⟨tag, _ | ⟨more, rest⟩⟩
      · simp
      · simp
      · cases h
    rw [combinations_field kind field hrest] at h
    obtain ⟨k, hk, h⟩ := List.mem_flatMap.mp h
    obtain ⟨f, hf, rfl⟩ := List.mem_map.mp h
    exact .inr ⟨kind, field, k, f, rest, rfl, rfl, hrest, hk, hf⟩

theorem colonFree_of_mem_combinations {ts names : List String}
    (hts : ∀ token ∈ ts, ColonFree token) (h : names ∈ combinations ts) :
    ∀ name ∈ names, ColonFree name := by
  rcases mem_combinations h with
    ⟨kind, k, rfl, rfl, hk⟩ | ⟨kind, field, k, f, rest, rfl, rfl, -, hk, hf⟩
  · simpa using colonFree_of_mem_kindChoices (hts kind (by simp)) hk
  · simp only [List.forall_mem_cons] at hts ⊢
    exact ⟨colonFree_of_mem_kindChoices hts.1 hk, colonFree_of_mem_fieldChoices hts.2.1 hf, hts.2.2⟩

theorem isPath_of_mem_denoted {query : String} {names : List String} (h : names ∈ denoted query) :
    IsPath names := by
  simpa using (List.mem_filter.mp h).2

/-- The tokens of the text of a path are its names. -/
theorem tokens_joined_of_mem_denoted {query : String} {names : List String}
    (h : names ∈ denoted query) : tokens (joined ":" names) = names :=
  tokens_joined (isPath_of_mem_denoted h).ne_nil
    (colonFree_of_mem_combinations (fun _ => colonFree_of_mem_tokens) (List.mem_filter.mp h).1)

/-! ## No path comes twice -/

theorem nodup_of_shortcut : (∀ shortcut ∈ kindShortcuts, shortcut.2.Nodup) ∧
    ∀ shortcut ∈ fieldShortcuts, shortcut.2.Nodup := by decide

theorem nodup_kindChoices (kind : String) (later : List String) :
    (kindChoices kind later).Nodup := by
  rcases kindChoices_cases kind later with h | ⟨shortcut, hmem, h⟩
  · rw [h]
    exact List.nodup_singleton kind
  · rw [h]
    exact nodup_of_shortcut.1 shortcut hmem

theorem nodup_fieldChoices (field : String) (tag : Option String) :
    (fieldChoices field tag).Nodup := by
  rcases fieldChoices_cases field tag with h | ⟨shortcut, hmem, h⟩
  · rw [h]
    exact List.nodup_singleton field
  · rw [h]
    exact nodup_of_shortcut.2 shortcut hmem

theorem nodup_combinations (ts : List String) : (combinations ts).Nodup := by
  rcases ts with _ | ⟨kind, _ | ⟨field, rest⟩⟩
  · exact List.nodup_nil
  · exact (nodup_kindChoices kind []).map fun _ _ h => List.head_eq_of_cons_eq h
  by_cases hrest : rest.length ≤ 1
  · rw [combinations_field kind field hrest, List.nodup_flatMap]
    refine ⟨fun k _ => (nodup_fieldChoices field _).map fun f g h => by simpa using h, ?_⟩
    refine (nodup_kindChoices kind _).imp fun hne names hk hl => ?_
    obtain ⟨f, -, rfl⟩ := List.mem_map.mp hk
    obtain ⟨g, -, h⟩ := List.mem_map.mp hl
    exact hne (List.head_eq_of_cons_eq h).symm
  · rcases rest with _ | ⟨tag, _ | ⟨more, rest⟩⟩
    · simp at hrest
    · simp at hrest
    · exact List.nodup_nil

theorem nodup_denoted (query : String) : (denoted query).Nodup :=
  (nodup_combinations (tokens query)).filter _

theorem nodup_texts_denoted (query : String) : ((denoted query).map (joined ":")).Nodup := by
  refine (nodup_denoted query).map_on fun names hnames other hother h => ?_
  rw [← tokens_joined_of_mem_denoted hnames, h, tokens_joined_of_mem_denoted hother]

/-! ## Lists of queries -/

theorem mapM_paths_of_denoted {queries : List String} (h : ∀ q ∈ queries, denoted q ≠ []) :
    (queries.map parts).mapM paths = .ok (queries.map fun q => (denoted q).map (·.map some)) := by
  rw [List.mapM_map]
  exact mapM_ok _ _ fun q hq => paths_of_denoted (h q hq)

theorem mapM_paths_of_not_denoted {queries : List String} (h : ∃ q ∈ queries, denoted q = []) :
    ∃ cause, (queries.map parts).mapM paths = .error (.query cause) := by
  induction queries with
  | nil => simp at h
  | cons q rest ih =>
    rw [List.map_cons, List.mapM_cons]
    by_cases hq : denoted q = []
    · obtain ⟨cause, hcause⟩ := paths_of_not_denoted hq
      rw [hcause]
      exact ⟨cause, rfl⟩
    · obtain ⟨cause, hcause⟩ := ih (by simpa [hq] using h)
      rw [paths_of_denoted hq, hcause]
      exact ⟨cause, rfl⟩

/-- Queries that all denote a path are expanded to the texts of all paths, in order. -/
theorem expand_of_denoted {queries : List String} (h : ∀ q ∈ queries, denoted q ≠ []) :
    expand queries = .ok ((queries.flatMap denoted).map (joined ":")) := by
  unfold expand
  rw [mapM_paths_of_denoted h]
  simp only [bind, Except.bind, ← List.flatMap_def, List.map_flatMap, List.map_map]
  simp only [Function.comp_def, text_map_some]

/-- A list in which some query denotes no path is refused. -/
theorem expand_of_not_denoted {queries : List String} (h : ∃ q ∈ queries, denoted q = []) :
    ∃ cause, expand queries = .error (.query cause) := by
  obtain ⟨cause, hcause⟩ := mapM_paths_of_not_denoted h
  unfold expand
  rw [hcause]
  exact ⟨cause, rfl⟩

theorem denoted_eq_nil_iff {query : String} :
    denoted query = [] ↔
      3 < (tokens query).length ∨ ∀ names ∈ combinations (tokens query), ¬ IsPath names := by
  unfold denoted
  rw [List.filter_eq_nil_iff]
  constructor
  · intro h
    exact .inr (by simpa using h)
  · rintro (hlong | h)
    · rcases hts : tokens query with _ | ⟨_, _ | ⟨_, _ | ⟨_, _ | _⟩⟩⟩
      all_goals simp [hts] at hlong
      simp [combinations]
    · simpa using h

/-- A query is expanded to the texts of exactly the paths that it denotes, in order and each once.
It is refused exactly if it has more than three tokens or no combination of names is a path. -/
theorem expand_singleton_iff (query : String) :
    (∀ texts, expand [query] = .ok texts ↔
      denoted query ≠ [] ∧ texts = (denoted query).map (joined ":")) ∧
    ((∃ cause, expand [query] = .error (.query cause)) ↔
      3 < (tokens query).length ∨ ∀ names ∈ combinations (tokens query), ¬ IsPath names) ∧
    ((denoted query).map (joined ":")).Nodup := by
  rw [← denoted_eq_nil_iff]
  by_cases h : denoted query = []
  · have hrefused : ∃ q ∈ [query], denoted q = [] := ⟨query, List.mem_singleton_self query, h⟩
    obtain ⟨cause, hcause⟩ := expand_of_not_denoted hrefused
    rw [hcause]
    exact ⟨by simp [h], by simp [h], nodup_texts_denoted query⟩
  · have haccepted : ∀ q ∈ [query], denoted q ≠ [] := List.forall_mem_singleton.mpr h
    have hok := expand_of_denoted haccepted
    rw [List.flatMap_singleton] at hok
    rw [hok]
    exact ⟨by simp [h, eq_comm], by simp [h], nodup_texts_denoted query⟩

end UpdateDispatch.Filter
