import UpdateDispatch.Proofs.Filter.Predicate

/-!
# Queries written out, and longer queries

No name of the schema is empty, a shortcut or has a colon in it. So the text of a path is a query
that stands for this path alone (`denoted_text`), and what a list of queries is expanded to is a
normal form: it stands for the same paths one by one (`expand_normal`).

A longer query stands for paths that go on from those of a shorter one (`exists_prefix_of_denoted`),
although a token that is empty or a shortcut may stand for less when tokens follow. What satisfies a
path satisfies its beginnings, so a level more only narrows a filter (`passes_of_isPrefix`).
-/

namespace UpdateDispatch.Filter

/-! ## The names of the schema -/

theorem kind_plain : ∀ kind ∈ kindNames,
    kind ≠ "" ∧ ColonFree kind ∧ Named.find? kind kindShortcuts = none := by decide

theorem field_plain : ∀ entry ∈ schema, ∀ field ∈ entry.2,
    field.1 ≠ "" ∧ ColonFree field.1 ∧ Named.find? field.1 fieldShortcuts = none ∧
      ∀ tag ∈ field.2, ColonFree tag := by decide

theorem IsPath.colonFree {names : List String} (path : IsPath names) :
    ∀ name ∈ names, ColonFree name := by
  cases path with
  | kind hkind =>
    simpa using (kind_plain _ (isPath_kind_iff.mp (.kind hkind))).2.1
  | field hkind hfield =>
    simpa using ⟨(kind_plain _ (isPath_kind_iff.mp (.kind hkind))).2.1,
      (field_plain _ hkind _ hfield).2.1⟩
  | tag hkind hfield htag =>
    have plain := field_plain _ hkind _ hfield
    simpa using ⟨(kind_plain _ (isPath_kind_iff.mp (.kind hkind))).2.1, plain.2.1,
      plain.2.2.2 _ htag⟩

theorem IsPath.kind_ne_empty {kind : String} {rest : List String} (path : IsPath (kind :: rest)) :
    kind ≠ "" :=
  (kind_plain kind path.mem_kindNames).1

theorem IsPath.field_ne_empty {kind field : String} {rest : List String}
    (path : IsPath (kind :: field :: rest)) : field ≠ "" := by
  rcases path with _ | ⟨hkind, hfield⟩ | ⟨hkind, hfield, -⟩ <;>
    exact (field_plain _ hkind _ hfield).1

/-! ## The normal form -/

theorem kindChoices_of_kind {kind : String} (known : kind ∈ kindNames) (later : List String) :
    kindChoices kind later = [kind] := by
  rw [kindChoices_eq, (kind_plain kind known).2.2]

theorem fieldChoices_of_field {kind field : String} {rest : List String}
    (path : IsPath (kind :: field :: rest)) (tag : Option String) :
    fieldChoices field tag = [field] := by
  rw [fieldChoices_eq]
  rcases path with _ | ⟨hkind, hfield⟩ | ⟨hkind, hfield, -⟩ <;>
    rw [(field_plain _ hkind _ hfield).2.2.1]

/-- The names of a path stand for nothing but themselves. -/
theorem combinations_path {names : List String} (path : IsPath names) :
    combinations names = [names] := by
  rcases names with _ | ⟨kind, _ | ⟨field, rest⟩⟩
  · exact absurd rfl path.ne_nil
  · rw [combinations, kindChoices_of_kind path.mem_kindNames]
    rfl
  · have short : rest.length ≤ 1 := by
      have bound := path.length_le
      simp only [List.length_cons] at bound
      omega
    rw [combinations_field kind field short, kindChoices_of_kind path.mem_kindNames,
      fieldChoices_of_field path]
    rfl

/-- The text of a path is a query that stands for this path alone. -/
theorem denoted_text {names : List String} (path : IsPath names) :
    denoted (joined ":" names) = [names] := by
  unfold denoted
  rw [tokens_joined path.ne_nil path.colonFree, combinations_path path]
  simp [path]

theorem flatMap_denoted_texts (queries : List String) :
    ((queries.flatMap denoted).map (joined ":")).flatMap denoted = queries.flatMap denoted := by
  rw [List.flatMap_map]
  calc (queries.flatMap denoted).flatMap (fun path => denoted (joined ":" path))
      = (queries.flatMap denoted).flatMap (fun path => [path]) :=
        List.flatMap_congr fun path mem => denoted_text (isPath_of_mem_flatMap_denoted mem)
    _ = queries.flatMap denoted := List.flatMap_singleton' _

theorem expand_eq_ok_iff {queries texts : List String} :
    expand queries = .ok texts ↔
      (∀ q ∈ queries, denoted q ≠ []) ∧ texts = (queries.flatMap denoted).map (joined ":") := by
  constructor
  · intro expanded
    by_cases all : ∀ q ∈ queries, denoted q ≠ []
    · rw [expand_of_denoted all] at expanded
      exact ⟨all, (Except.ok.inj expanded).symm⟩
    · obtain ⟨cause, refused⟩ := expand_of_not_denoted (by simpa using all)
      rw [refused] at expanded
      cases expanded
  · rintro ⟨all, rfl⟩
    exact expand_of_denoted all

theorem denoted_ne_nil_of_texts (queries : List String) :
    ∀ text ∈ (queries.flatMap denoted).map (joined ":"), denoted text ≠ [] := by
  intro text mem
  obtain ⟨path, listed, rfl⟩ := List.mem_map.mp mem
  rw [denoted_text (isPath_of_mem_flatMap_denoted listed)]
  exact List.cons_ne_nil path []

/-- What queries are expanded to is expanded to itself, as a whole and text by text, and it is what
the queries are expanded to one after the other. As queries of a filter, the texts have the
predicate that the queries have. -/
theorem expand_normal {argument : Json} {queries texts : List String}
    (lists : Lists argument queries) (expanded : expand queries = .ok texts) :
    expand texts = .ok texts ∧
      (∀ text ∈ texts, expand [text] = .ok [text] ∧ ∃ p, matchFilter (.str text) = .ok p) ∧
      (∃ each, queries.mapM (fun q => expand [q]) = .ok each ∧ texts = each.flatten) ∧
      (queries ≠ [] → ∃ p, matchFilter argument = .ok p ∧
        matchFilter (.arr (texts.map .str)) = .ok p) := by
  obtain ⟨all, rfl⟩ := expand_eq_ok_iff.mp expanded
  have again := denoted_ne_nil_of_texts queries
  refine ⟨?_, fun text mem => ?_, ?_, fun some_query => ?_⟩
  · rw [expand_of_denoted again, flatMap_denoted_texts]
  · obtain ⟨path, listed, rfl⟩ := List.mem_map.mp mem
    have alone := denoted_text (isPath_of_mem_flatMap_denoted listed)
    have accepted : denoted (joined ":" path) ≠ [] := by simp [alone]
    refine ⟨?_, _, matchFilter_of_denoted accepted⟩
    rw [expand_of_denoted (by simpa using accepted), List.flatMap_singleton, alone]
    rfl
  · refine ⟨queries.map fun q => (denoted q).map (joined ":"), mapM_ok _ _ fun q mem => ?_, ?_⟩
    · rw [expand_of_denoted (by simpa using all q mem), List.flatMap_singleton]
    · rw [List.map_flatMap, List.flatMap_def]
  · have some_text : (queries.flatMap denoted).map (joined ":") ≠ [] := by
      obtain ⟨q, mem⟩ := List.exists_mem_of_ne_nil _ some_query
      obtain ⟨path, mem'⟩ := List.exists_mem_of_ne_nil _ (all q mem)
      exact List.ne_nil_of_mem (List.mem_map.mpr ⟨path, List.mem_flatMap.mpr ⟨q, mem, mem'⟩, rfl⟩)
    refine ⟨Predicate.ofPaths (queries.flatMap denoted), ?_, ?_⟩
    · rw [lists.matchFilter_eq, compileQueries_eq_ok_iff]
      exact ⟨some_query, all, rfl⟩
    · rw [matchFilter_texts, compileQueries_eq_ok_iff]
      exact ⟨some_text, again, by rw [flatMap_denoted_texts]⟩

/-- Queries of different lengths, one of them a shortcut for two fields and a path of another. -/
theorem expand_normal_mixed :
    expand ["msg:media", "message", "message:photo"] = .ok ["message:photo", "message:video",
      "channel_post:photo", "channel_post:video", "message", "message:photo"] ∧
    expand ["message:photo", "message:video", "channel_post:photo", "channel_post:video",
      "message", "message:photo"] = .ok ["message:photo", "message:video",
      "channel_post:photo", "channel_post:video", "message", "message:photo"] ∧
    ∃ p, matchFilter (.arr (["msg:media", "message", "message:photo"].map .str)) = .ok p ∧
      matchFilter (.arr (["message:photo", "message:video", "channel_post:photo",
        "channel_post:video", "message", "message:photo"].map .str)) = .ok p := by
  have expanded : expand ["msg:media", "message", "message:photo"] = .ok ["message:photo",
      "message:video", "channel_post:photo", "channel_post:video", "message", "message:photo"] := by
    cbv
  obtain ⟨again, -, -, same⟩ := expand_normal (.texts _) expanded
  exact ⟨expanded, again, same (List.cons_ne_nil _ _)⟩

/-! ## Longer queries -/

/-- Later tokens change what a first token stands for only if it stood for nothing in the schema. -/
theorem kindChoices_of_isPrefix {kind k : String} {later more : List String}
    (fewer : later <+: more) (mem : k ∈ kindChoices kind later) (known : k ≠ "") :
    kindChoices kind more = kindChoices kind later := by
  rw [kindChoices_eq] at mem
  rw [kindChoices_eq, kindChoices_eq]
  cases found : Named.find? kind kindShortcuts with
  | none => rfl
  | some kinds =>
    have some_later : ¬ (kind = "" ∧ later.all (· = "") = true) := by
      intro blank
      simp only [found, if_pos blank, List.mem_singleton] at mem
      exact known (mem.trans blank.1)
    have some_more : ¬ (kind = "" ∧ more.all (· = "") = true) := by
      rintro ⟨empty, blank⟩
      refine some_later ⟨empty, List.all_eq_true.mpr fun token held => ?_⟩
      exact List.all_eq_true.mp blank token (fewer.subset held)
    simp only [if_neg some_later, if_neg some_more]

theorem fieldChoices_of_none {field f : String} (tag : String)
    (mem : f ∈ fieldChoices field none) (known : f ≠ "") :
    fieldChoices field (some tag) = fieldChoices field none := by
  rw [fieldChoices_eq] at mem
  rw [fieldChoices_eq, fieldChoices_eq]
  cases found : Named.find? field fieldShortcuts with
  | none => rfl
  | some fields =>
    have given : field ≠ "" := by
      rintro rfl
      simp only [found, blank, Option.getD_none, beq_self_eq_true, and_self, if_true,
        List.mem_singleton] at mem
      exact known mem
    simp only [given, false_and, if_false]

/-- The combinations of a query begin with those of its beginning, if one of these is a path. -/
theorem exists_prefix_of_combinations {ts more known names : List String} (fewer : ts <+: more)
    (mem : known ∈ combinations ts) (path : IsPath known) (mem' : names ∈ combinations more) :
    ∃ short ∈ combinations ts, short <+: names := by
  rcases mem_combinations mem with
    ⟨kind, k₀, rfl, rfl, kind_mem⟩ | ⟨kind, field, k₀, f₀, rest, rfl, rfl, one, kind_mem, field_mem⟩
  · rcases mem_combinations mem' with
      ⟨kind', k, rfl, rfl, choice⟩ | ⟨kind', field, k, f, rest, rfl, rfl, -, choice, -⟩
    all_goals
      obtain ⟨rfl, -⟩ := List.cons_prefix_cons.mp fewer
      rw [kindChoices_of_isPrefix List.nil_prefix kind_mem path.kind_ne_empty] at choice
      exact ⟨[k], List.mem_map.mpr ⟨k, choice, rfl⟩, List.prefix_append [k] _⟩
  · rcases mem_combinations mem' with
      ⟨kind', k, rfl, rfl, choice⟩ | ⟨kind', field', k, f, rest', rfl, rfl, -, choice, choice'⟩
    · simp at fewer
    obtain ⟨rfl, below⟩ := List.cons_prefix_cons.mp fewer
    rw [kindChoices_of_isPrefix below kind_mem path.kind_ne_empty] at choice
    obtain ⟨rfl, tags⟩ := List.cons_prefix_cons.mp below
    have kept : f ∈ fieldChoices field rest[0]? := by
      rcases rest with _ | ⟨tag, rest⟩
      · rcases rest' with _ | ⟨tag, rest'⟩
        · exact choice'
        · rwa [List.getElem?_cons_zero,
            fieldChoices_of_none tag field_mem path.field_ne_empty] at choice'
      · obtain ⟨more, rfl⟩ := tags
        exact choice'
    refine ⟨k :: f :: rest, ?_, ?_⟩
    · rw [combinations_field kind field one, List.mem_flatMap]
      exact ⟨k, choice, List.mem_map.mpr ⟨f, kept, rfl⟩⟩
    · exact List.cons_prefix_cons.mpr ⟨rfl, List.cons_prefix_cons.mpr ⟨rfl, tags⟩⟩

theorem IsPath.of_isPrefix {short names : List String} (path : IsPath names)
    (start : short <+: names) (nonempty : short ≠ []) : IsPath short := by
  rcases short with _ | ⟨kind, _ | ⟨field, _ | ⟨tag, rest⟩⟩⟩
  · exact absurd rfl nonempty
  · obtain ⟨more, rfl⟩ := start
    exact isPath_kind_iff.mpr path.mem_kindNames
  · obtain ⟨more, rfl⟩ := start
    exact isPath_field_iff.mpr path.hasField
  · have bound := path.length_le
    have same : kind :: field :: tag :: rest = names := start.eq_of_length_le (by
      simp only [List.length_cons]
      omega)
    rwa [same]

/-- The paths of a query begin with paths of every beginning of it that is accepted. -/
theorem exists_prefix_of_denoted {query longer : String} {path : List String}
    (fewer : tokens query <+: tokens longer) (accepted : denoted query ≠ [])
    (mem : path ∈ denoted longer) : ∃ short ∈ denoted query, short <+: path := by
  obtain ⟨known, held⟩ := List.exists_mem_of_ne_nil _ accepted
  obtain ⟨short, listed, start⟩ := exists_prefix_of_combinations fewer (List.mem_filter.mp held).1
    (isPath_of_mem_denoted held) (List.mem_filter.mp mem).1
  refine ⟨short, List.mem_filter.mpr ⟨listed, ?_⟩, start⟩
  have nonempty : short ≠ [] := by
    rcases mem_combinations listed with ⟨_, _, -, rfl, -⟩ | ⟨_, _, _, _, _, -, rfl, -⟩ <;>
      exact List.cons_ne_nil _ _
  simpa using (isPath_of_mem_denoted mem).of_isPrefix start nonempty

/-- What satisfies a path satisfies its beginnings: what counts as true is not null. -/
theorem Satisfies.of_isPrefix {update me : Json} {short path : List String}
    (satisfies : Satisfies update me path) (start : short <+: path) (nonempty : short ≠ []) :
    Satisfies update me short := by
  obtain ⟨more, rfl⟩ := start
  rcases short with _ | ⟨kind, _ | ⟨field, rest⟩⟩
  · exact absurd rfl nonempty
  · rcases more with _ | ⟨field, more⟩
    · exact satisfies
    · have truthy := ((satisfies_cons_cons update me kind field more).mp satisfies).1
      exact Json.isNull_eq_false_iff.mpr (Json.ne_null_of_truthy truthy)
  · rcases rest with _ | ⟨tag, _ | ⟨further, rest⟩⟩
    · rcases more with _ | ⟨tag, _ | ⟨further, more⟩⟩
      · exact satisfies
      · exact ⟨satisfies.1, Json.isNull_eq_false_iff.mpr (Json.ne_null_of_truthy satisfies.2.1)⟩
      · exact satisfies.elim
    · rcases more with _ | ⟨further, more⟩
      · exact satisfies
      · exact satisfies.elim
    · exact satisfies.elim

/-- A context that passes a query passes every accepted query whose tokens are its first ones. -/
theorem passes_of_isPrefix {query longer : String} {p r : Predicate}
    (accepted : matchFilter (.str query) = .ok p) (accepted' : matchFilter (.str longer) = .ok r)
    (fewer : tokens query <+: tokens longer) (c : Context) (passes : c.passes r = true) :
    c.passes p = true := by
  rw [matchFilter_text, compileQueries_eq_ok_iff] at accepted accepted'
  obtain ⟨-, known, rfl⟩ := accepted
  obtain ⟨-, -, rfl⟩ := accepted'
  rw [List.flatMap_singleton, passes_query_iff] at passes ⊢
  obtain ⟨path, mem, satisfies⟩ := passes
  obtain ⟨short, mem', start⟩ := exists_prefix_of_denoted fewer (by simpa using known) mem
  exact ⟨short, mem', satisfies.of_isPrefix start (isPath_of_mem_denoted mem').ne_nil⟩

/-- A message with a sticker that moves. -/
def stickerMessage : Context :=
  { update := .obj [("message", .obj [("sticker", .obj [("is_video", .bool true)])])]
    me := { id := .int 42 } }

/-- A file is a photo, a video, a sticker or one of five other things, but only a sticker can be
asked for `is_video`. -/
theorem passes_of_isPrefix_sticker :
    ∃ p r, matchFilter (.str ":file") = .ok p ∧ matchFilter (.str ":file:is_video") = .ok r ∧
      tokens ":file" <+: tokens ":file:is_video" ∧ stickerMessage.passes r = true ∧
        stickerMessage.passes p = true := by
  have accepted : ∃ p, matchFilter (.str ":file") = .ok p := by
    rw [matchFilter_of_denoted (by decide)]
    exact ⟨_, rfl⟩
  obtain ⟨p, accepted⟩ := accepted
  have longer : matchFilter (.str ":file:is_video") =
      .ok ⟨[("message", [("sticker", ["is_video"])]),
        ("channel_post", [("sticker", ["is_video"])])]⟩ := by cbv
  have fewer : tokens ":file" <+: tokens ":file:is_video" := by decide
  have passes : stickerMessage.passes ⟨[("message", [("sticker", ["is_video"])]),
      ("channel_post", [("sticker", ["is_video"])])]⟩ = true := by cbv
  exact ⟨p, _, accepted, longer, fewer, passes,
    passes_of_isPrefix accepted longer fewer stickerMessage passes⟩

end UpdateDispatch.Filter
