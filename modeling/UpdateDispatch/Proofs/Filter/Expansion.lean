import UpdateDispatch.Proofs.Filter.Path

/-!
# What a query stands for

`denoted` reads a query by its grammar: each of the first two tokens stands for a list of names,
the third one for itself, and the query for those combinations that are paths of the schema.
`expand` works in two stages that drop some combinations and leave others to a check of the whole.
Both come to the same: a query that denotes a path is expanded to all paths that it denotes
(`paths_of_denoted`), and any other one is refused (`paths_of_not_denoted`).
-/

namespace UpdateDispatch.Filter

/-! ## The grammar -/

/-- The update kinds that the first token of a query stands for, given the next two. -/
def kindChoices (kind : String) (later : List String) : List String :=
  match kind with
  | "msg" => ["message", "channel_post"]
  | "edit" => ["edited_message", "edited_channel_post"]
  | "" => if later.all (· = "") then [""] else ["message", "channel_post"]
  | kind => [kind]

/-- The fields that the second token of a query stands for, given the third one. -/
def fieldChoices (field : String) (tag : Option String) : List String :=
  match field with
  | "media" => ["photo", "video"]
  | "file" =>
    ["photo", "animation", "audio", "document", "video", "video_note", "voice", "sticker"]
  | "" => if blank tag then [""] else ["entities", "caption_entities"]
  | field => [field]

/-- The combinations of names that the tokens of a query stand for, kind by kind. -/
def combinations : List String → List (List String)
  | [kind] => (kindChoices kind []).map fun k => [k]
  | [kind, field] =>
    (kindChoices kind [field]).flatMap fun k => (fieldChoices field none).map fun f => [k, f]
  | [kind, field, tag] =>
    (kindChoices kind [field, tag]).flatMap fun k =>
      (fieldChoices field (some tag)).map fun f => [k, f, tag]
  | _ => []

instance : DecidablePred IsPath := fun names =>
  decidable_of_iff ((pathFault? (names.map some)).isNone = true)
    (by rw [Option.isNone_iff_eq_none]; exact pathFault?_eq_none_iff names)

/-- The paths that a query denotes. -/
def denoted (query : String) : List (List String) :=
  (combinations (tokens query)).filter fun names => IsPath names

/-! ## The choices are those of the tables -/

theorem kindChoices_eq (kind : String) (later : List String) :
    kindChoices kind later =
      match Named.find? kind kindShortcuts with
      | none => [kind]
      | some kinds => if kind = "" ∧ later.all (· = "") then [kind] else kinds := by
  unfold kindChoices
  split
  · rfl
  · rfl
  · by_cases h : later.all (· = "") <;> simp [h, kindShortcuts, Named.find?]
  · next hmsg hedit hempty =>
    simp [kindShortcuts, Named.find?, Ne.symm hmsg, Ne.symm hedit, Ne.symm hempty]

theorem kindChoices_cases (kind : String) (later : List String) :
    kindChoices kind later = [kind] ∨
      ∃ shortcut ∈ kindShortcuts, kindChoices kind later = shortcut.2 := by
  rw [kindChoices_eq]
  rcases hfind : Named.find? kind kindShortcuts with _ | kinds
  · exact .inl rfl
  · dsimp only
    split
    · exact .inl rfl
    · exact .inr ⟨(kind, kinds), Named.mem_of_find?_eq_some hfind, rfl⟩

theorem fieldChoices_eq (field : String) (tag : Option String) :
    fieldChoices field tag =
      match Named.find? field fieldShortcuts with
      | none => [field]
      | some fields => if field = "" ∧ blank tag then [field] else fields := by
  unfold fieldChoices
  split
  · rfl
  · rfl
  · by_cases h : blank tag <;> simp [h, fieldShortcuts, Named.find?]
  · next hmedia hfile hempty =>
    simp [fieldShortcuts, Named.find?, Ne.symm hmedia, Ne.symm hfile, Ne.symm hempty]

/-! ## What the shortcuts and the schema promise each other -/

theorem mem_kindNames_of_shortcut : ∀ shortcut ∈ kindShortcuts, ∀ kind ∈ shortcut.2,
    kind ∈ kindNames := by decide

/-- A kind that has one field of a named shortcut has all of them. -/
theorem hasField_all_or_none : ∀ shortcut ∈ fieldShortcuts, shortcut.1 ≠ "" → ∀ kind ∈ kindNames,
    (∀ field ∈ shortcut.2, hasField kind field = true) ∨
      ∀ field ∈ shortcut.2, hasField kind field = false := by decide

/-- The kinds of a shortcut have all fields of a named shortcut. -/
theorem hasField_of_shortcuts : ∀ kinds ∈ kindShortcuts, ∀ fields ∈ fieldShortcuts,
    fields.1 ≠ "" → ∀ kind ∈ kinds.2, ∀ field ∈ fields.2, hasField kind field = true := by
  decide +kernel

/-- The kinds of a shortcut have the same tags below the fields that they share. -/
theorem tags_of_shortcut : ∀ kinds ∈ kindShortcuts, ∀ k ∈ kinds.2, ∀ l ∈ kinds.2,
    ∀ field ∈ fieldsOf k, hasField l field.1 = true → tagsOf l field.1 = field.2 := by
  decide

/-! ## The two stages -/

/-- The combinations that the two stages leave to the check. -/
def expansion (parts : Parts) : List Parts :=
  ((expandKind parts).flatMap expandField).map Parts.trim

theorem trim_map_some (names : List String) : Parts.trim (names.map some) = names.map some := by
  unfold Parts.trim
  rcases names.eq_nil_or_concat with rfl | ⟨rest, last, rfl⟩
  · rfl
  · simp

/-- The second stage looks at levels, and what is left of its result does not depend on open levels
at the end. -/
theorem map_trim_expandField_congr {p q : Parts} (hlevels : p.levels = q.levels)
    (htrim : p.trim = q.trim) :
    (expandField p).map Parts.trim = (expandField q).map Parts.trim := by
  unfold expandField
  rw [hlevels]
  rcases hfind : q.levels.field.bind (Named.find? · fieldShortcuts) with _ | fields
  · simpa [hfind] using htrim
  · by_cases h : blank q.levels.field = true ∧ blank q.levels.tag = true
    · simpa [hfind, h] using htrim
    · simp [hfind, h]

/-- Whether the second stage puts several fields in place of a token. -/
def opens (field : String) (tag : Option String) : Bool :=
  (Named.find? field fieldShortcuts).isSome && !(blank (some field) && blank tag)

/-- Whether the first stage keeps a kind for the later tokens. -/
def kindFits (later : List String) (kind : String) : Bool :=
  match later with
  | [] => true
  | field :: rest => opens field rest[0]? || hasField kind field

/-- Whether the second stage keeps a field of a kind for the third token. -/
def fieldFits (kind : String) (rest : List String) (field : String) : Bool :=
  match rest with
  | [] => true
  | tag :: _ => (tagsOf kind field).contains tag

/-- A kind with open levels below it, as the first stage puts it where a shortcut stood. -/
def candidate (later : List String) (kind : String) : Parts :=
  some kind :: later[0]? :: later[1]? :: (later.drop 2).map some

theorem expandKind_map_some (kind : String) (later : List String) :
    expandKind ((kind :: later).map some) =
      match Named.find? kind kindShortcuts with
      | none => [(kind :: later).map some]
      | some kinds =>
        if blank (some kind) && blank later[0]? && blank later[1]? then [(kind :: later).map some]
        else (kinds.filter (kindFits later)).map (candidate later) := by
  unfold expandKind
  rw [levels_map_some]
  rcases later with _ | ⟨field, rest⟩ <;> rfl

theorem expandField_map_some (kind field : String) (rest : List String) :
    expandField ((kind :: field :: rest).map some) =
      match Named.find? field fieldShortcuts with
      | none => [(kind :: field :: rest).map some]
      | some fields =>
        if blank (some field) && blank rest[0]? then [(kind :: field :: rest).map some]
        else (fields.filter (fieldFits kind rest)).map fun f =>
          some kind :: some f :: rest[0]? :: (rest.drop 1).map some := by
  unfold expandField
  rw [levels_map_some]
  rcases rest with _ | ⟨tag, rest⟩ <;> rfl

theorem blank_kind_iff {kind : String} {later : List String} (hlater : later.length ≤ 2) :
    (blank (some kind) && blank later[0]? && blank later[1]?) = true ↔
      kind = "" ∧ later.all (· = "") = true := by
  rcases later with _ | ⟨field, _ | ⟨tag, _ | _⟩⟩
  · simp [blank]
  · simp [blank]
  · simp [blank, and_assoc]
  · simp at hlater

theorem blank_field_iff {field : String} {tag : Option String} :
    (blank (some field) && blank tag) = true ↔ field = "" ∧ blank tag = true := by
  simp [blank]

theorem map_trim_expandField_candidate {later : List String} (hlater : later.length ≤ 2)
    (kind : String) :
    (expandField (candidate later kind)).map Parts.trim =
      (expandField ((kind :: later).map some)).map Parts.trim := by
  rcases later with _ | ⟨field, _ | ⟨tag, _ | _⟩⟩
  · exact map_trim_expandField_congr rfl rfl
  · exact map_trim_expandField_congr rfl rfl
  · rfl
  · simp at hlater

/-- The first stage either leaves the first token as it is, or puts in its place the kinds of a
shortcut that fit. -/
theorem expansion_cases (kind : String) (later : List String) (hlater : later.length ≤ 2) :
    ∃ kept : List String,
      expansion ((kind :: later).map some) =
        kept.flatMap (fun k => (expandField ((k :: later).map some)).map Parts.trim) ∧
      ((kindChoices kind later = [kind] ∧ kept = [kind]) ∨
        ∃ shortcut ∈ kindShortcuts,
          kindChoices kind later = shortcut.2 ∧ kept = shortcut.2.filter (kindFits later)) := by
  have hsame : (List.flatMap expandField [(kind :: later).map some]).map Parts.trim =
      [kind].flatMap fun k => (expandField ((k :: later).map some)).map Parts.trim := by
    rw [List.flatMap_singleton, List.flatMap_singleton]
  unfold expansion
  rw [expandKind_map_some, kindChoices_eq]
  rcases hfind : Named.find? kind kindShortcuts with _ | kinds
  · exact ⟨[kind], hsame, .inl ⟨rfl, rfl⟩⟩
  dsimp only
  by_cases hblank : kind = "" ∧ later.all (· = "") = true
  · rw [if_pos ((blank_kind_iff hlater).mpr hblank), if_pos hblank]
    exact ⟨[kind], hsame, .inl ⟨rfl, rfl⟩⟩
  · rw [if_neg (mt (blank_kind_iff hlater).mp hblank), if_neg hblank]
    refine ⟨kinds.filter (kindFits later), ?_,
      .inr ⟨(kind, kinds), Named.mem_of_find?_eq_some hfind, rfl, rfl⟩⟩
    rw [List.map_flatMap, List.flatMap_map]
    simp only [map_trim_expandField_candidate hlater]

theorem fieldChoices_of_not_opens {field : String} {tag : Option String}
    (h : opens field tag = false) : fieldChoices field tag = [field] := by
  rw [fieldChoices_eq]
  unfold opens at h
  rcases hfind : Named.find? field fieldShortcuts with _ | fields
  · rfl
  · rw [hfind, Option.isSome_some, Bool.true_and, Bool.not_eq_false'] at h
    exact if_pos (blank_field_iff.mp h)

theorem fieldChoices_of_opens {field : String} {tag : Option String} (h : opens field tag = true) :
    (field, fieldChoices field tag) ∈ fieldShortcuts ∧ ¬ (field = "" ∧ blank tag = true) := by
  rw [fieldChoices_eq]
  unfold opens at h
  rcases hfind : Named.find? field fieldShortcuts with _ | fields
  · rw [hfind] at h
    cases h
  · rw [hfind, Option.isSome_some, Bool.true_and, Bool.not_eq_true'] at h
    have hblank : ¬ (field = "" ∧ blank tag = true) := fun hb => by
      rw [blank_field_iff.mpr hb] at h
      cases h
    dsimp only
    rw [if_neg hblank]
    exact ⟨Named.mem_of_find?_eq_some hfind, hblank⟩

theorem map_trim_expandField_of_not_opens {kind field : String} {rest : List String}
    (h : opens field rest[0]? = false) :
    (expandField ((kind :: field :: rest).map some)).map Parts.trim =
      [(kind :: field :: rest).map some] := by
  have hsame : [(kind :: field :: rest).map some].map Parts.trim =
      [(kind :: field :: rest).map some] := by
    rw [List.map_singleton, trim_map_some]
  unfold opens at h
  rw [expandField_map_some]
  rcases hfind : Named.find? field fieldShortcuts with _ | fields
  · exact hsame
  · rw [hfind, Option.isSome_some, Bool.true_and, Bool.not_eq_false'] at h
    dsimp only
    rw [if_pos h]
    exact hsame

theorem map_trim_expandField_of_opens {kind field : String} {rest : List String}
    (hrest : rest.length ≤ 1) (h : opens field rest[0]? = true) :
    (expandField ((kind :: field :: rest).map some)).map Parts.trim =
      ((fieldChoices field rest[0]?).filter (fieldFits kind rest)).map
        fun f => (kind :: f :: rest).map some := by
  obtain ⟨hmem, hblank⟩ := fieldChoices_of_opens h
  have hfind : Named.find? field fieldShortcuts = some (fieldChoices field rest[0]?) :=
    Named.find?_eq_some_of_mem (by decide) hmem
  rw [expandField_map_some, hfind]
  dsimp only
  rw [if_neg (mt blank_field_iff.mp hblank), List.map_map]
  rcases rest with _ | ⟨tag, _ | _⟩
  · rfl
  · rfl
  · simp at hrest

/-! ## The check settles what the stages leave -/

/-- `left` holds the paths among `all`, and something else only if there are none. -/
structure Leaves (all left : List (List String)) : Prop where
  filter_eq : left.filter (IsPath ·) = all.filter (IsPath ·)
  all_or_none : (∀ names ∈ left, IsPath names) ∨ all.filter (IsPath ·) = []

theorem Leaves.of_filter (all : List (List String)) : Leaves all (all.filter (IsPath ·)) where
  filter_eq := by simp
  all_or_none := .inl fun names h => by simpa using (List.mem_filter.mp h).2

theorem Leaves.of_all_or_none {all : List (List String)}
    (h : (∀ names ∈ all, IsPath names) ∨ ∀ names ∈ all, ¬ IsPath names) : Leaves all all where
  filter_eq := rfl
  all_or_none := h.imp_right fun hnone => List.filter_eq_nil_iff.mpr (by simpa using hnone)

theorem Leaves.singleton (names : List String) : Leaves [names] [names] :=
  .of_all_or_none (by simpa using em (IsPath names))

theorem combinations_field (kind field : String) {rest : List String} (hrest : rest.length ≤ 1) :
    combinations (kind :: field :: rest) =
      (kindChoices kind (field :: rest)).flatMap fun k =>
        (fieldChoices field rest[0]?).map fun f => k :: f :: rest := by
  rcases rest with _ | ⟨tag, _ | _⟩
  · rfl
  · rfl
  · simp at hrest

/-- The kinds of a shortcut that have a field have the same paths through it. -/
theorem isPath_of_shortcut {shortcut : String × List String} (hmem : shortcut ∈ kindShortcuts)
    {k l field : String} (hk : k ∈ shortcut.2) (hl : l ∈ shortcut.2) {rest : List String}
    (hpath : IsPath (k :: field :: rest)) (hfield : hasField l field = true) :
    IsPath (l :: field :: rest) := by
  rcases hpath with _ | _ | ⟨hkind, hmemField, htag⟩
  · exact isPath_field_iff.mpr hfield
  · have htags := tags_of_shortcut shortcut hmem k hk l hl (field, _)
      ((fieldsOf_of_mem hkind).symm ▸ hmemField) hfield
    rw [isPath_tag_iff, htags]
    exact htag

/-- A query with one token. -/
theorem exists_leaves_kind (kind : String) :
    ∃ left, expansion ([kind].map some) = left.map (·.map some) ∧
      Leaves (combinations [kind]) left := by
  obtain ⟨kept, hexp, h⟩ := expansion_cases kind [] (by simp)
  refine ⟨kept.map fun k => [k], ?_, ?_⟩
  · rw [hexp, List.map_map, List.map_eq_flatMap]
    rfl
  rw [combinations]
  rcases h with ⟨hchoices, rfl⟩ | ⟨shortcut, hmem, hchoices, rfl⟩
  · rw [hchoices]
    exact .singleton [kind]
  · have hall : shortcut.2.filter (kindFits []) = shortcut.2 :=
      List.filter_eq_self.mpr fun _ _ => rfl
    rw [hchoices, hall]
    refine .of_all_or_none (.inl fun names hnames => ?_)
    obtain ⟨k, hk, rfl⟩ := List.mem_map.mp hnames
    exact isPath_kind_iff.mpr (mem_kindNames_of_shortcut shortcut hmem k hk)

/-- A query whose second token stays as it is: the first stage keeps the kinds that have it. -/
theorem exists_leaves_of_not_opens (kind : String) {field : String} (rest : List String)
    (hrest : rest.length ≤ 1) (hopens : opens field rest[0]? = false) :
    ∃ left, expansion ((kind :: field :: rest).map some) = left.map (·.map some) ∧
      Leaves (combinations (kind :: field :: rest)) left := by
  obtain ⟨kept, hexp, h⟩ := expansion_cases kind (field :: rest) (by simp; omega)
  refine ⟨kept.map fun k => k :: field :: rest, ?_, ?_⟩
  · rw [hexp, List.map_map, List.map_eq_flatMap]
    simp only [map_trim_expandField_of_not_opens hopens]
    rfl
  rw [combinations_field kind field hrest, fieldChoices_of_not_opens hopens]
  simp only [List.map_singleton, ← List.map_eq_flatMap]
  rcases h with ⟨hchoices, rfl⟩ | ⟨shortcut, hmem, hchoices, rfl⟩
  · rw [hchoices]
    exact .singleton (kind :: field :: rest)
  have hfits : kindFits (field :: rest) = fun k => hasField k field := by
    funext k
    exact (congrArg (· || hasField k field) hopens).trans (Bool.false_or _)
  rw [hchoices, hfits]
  refine ⟨?_, ?_⟩
  · -- what the first stage drops is no path
    rw [List.filter_map, List.filter_map, List.filter_filter]
    refine congrArg _ (List.filter_congr fun k _ => ?_)
    simpa using fun hpath : IsPath (k :: field :: rest) => hpath.hasField
  · by_cases hsome : ∃ k ∈ shortcut.2, IsPath (k :: field :: rest)
    · obtain ⟨k, hk, hpath⟩ := hsome
      refine .inl fun names hnames => ?_
      obtain ⟨l, hl, rfl⟩ := List.mem_map.mp hnames
      obtain ⟨hl, hfield⟩ := List.mem_filter.mp hl
      exact isPath_of_shortcut hmem hk hl hpath hfield
    · exact .inr (by simpa [List.filter_eq_nil_iff] using hsome)

/-- A query whose second token is a shortcut: the first stage keeps all kinds. -/
theorem expansion_of_opens (kind : String) {field : String} (rest : List String)
    (hrest : rest.length ≤ 1) (hopens : opens field rest[0]? = true) :
    expansion ((kind :: field :: rest).map some) =
      ((kindChoices kind (field :: rest)).flatMap fun k =>
        ((fieldChoices field rest[0]?).filter (fieldFits k rest)).map
          fun f => k :: f :: rest).map (·.map some) := by
  obtain ⟨kept, hexp, h⟩ := expansion_cases kind (field :: rest) (by simp; omega)
  have hkept : kept = kindChoices kind (field :: rest) := by
    rcases h with ⟨hchoices, rfl⟩ | ⟨shortcut, -, hchoices, rfl⟩
    · exact hchoices.symm
    · rw [hchoices]
      exact List.filter_eq_self.mpr fun k _ => congrArg (· || hasField k field) hopens
  rw [hexp, hkept]
  simp only [map_trim_expandField_of_opens hrest hopens, List.map_flatMap, List.map_map]
  rfl

/-- A query of two tokens with a shortcut for fields: the kinds have all of them or none. -/
theorem exists_leaves_of_opens_field (kind : String) {field : String}
    (hopens : opens field none = true) :
    ∃ left, expansion ([kind, field].map some) = left.map (·.map some) ∧
      Leaves (combinations [kind, field]) left := by
  refine ⟨_, expansion_of_opens kind [] (by simp) hopens, ?_⟩
  obtain ⟨hmem, hblank⟩ := fieldChoices_of_opens hopens
  have hempty : field ≠ "" := fun h => hblank ⟨h, rfl⟩
  have hfits : ∀ k, (fieldChoices field none).filter (fieldFits k []) = fieldChoices field none :=
    fun k => List.filter_eq_self.mpr fun _ _ => rfl
  rw [combinations]
  simp only [List.getElem?_nil, hfits]
  refine .of_all_or_none ?_
  simp only [List.forall_mem_flatMap, List.forall_mem_map, isPath_field_iff]
  rcases kindChoices_cases kind [field] with hchoices | ⟨shortcut, hshortcut, hchoices⟩
  · simp only [hchoices, List.mem_singleton, forall_eq]
    by_cases hkind : kind ∈ kindNames
    · simpa using hasField_all_or_none _ hmem hempty kind hkind
    · exact .inr fun f _ h => hkind (isPath_field_iff.mpr h).mem_kindNames
  · rw [hchoices]
    exact .inl (hasField_of_shortcuts shortcut hshortcut _ hmem hempty)

/-- A query of three tokens with a shortcut for fields: the second stage keeps the paths. -/
theorem exists_leaves_of_opens_tag (kind tag : String) {field : String}
    (hopens : opens field (some tag) = true) :
    ∃ left, expansion ([kind, field, tag].map some) = left.map (·.map some) ∧
      Leaves (combinations [kind, field, tag]) left := by
  refine ⟨_, expansion_of_opens kind [tag] (by simp) hopens, ?_⟩
  rw [combinations]
  have hfilter : ∀ k, ((fieldChoices field (some tag)).filter (fieldFits k [tag])).map
      (fun f => [k, f, tag]) = ((fieldChoices field (some tag)).map fun f => [k, f, tag]).filter
        (IsPath ·) := by
    intro k
    rw [List.filter_map]
    refine congrArg _ (List.filter_congr fun f _ => ?_)
    rw [Bool.eq_iff_iff, Function.comp_apply, decide_eq_true_iff, isPath_tag_iff]
    exact List.contains_iff_mem
  simp only [List.getElem?_cons_zero, hfilter]
  rw [← List.filter_flatMap]
  exact .of_filter _

/-- More than three tokens stay more than three in every combination. -/
theorem exists_names_of_long {kind field tag more : String} {rest : List String} {p : Parts}
    (hp : p ∈ expansion ((kind :: field :: tag :: more :: rest).map some)) :
    ∃ k f, p = (k :: f :: tag :: more :: rest).map some := by
  have hkind : ∀ q ∈ expandKind ((kind :: field :: tag :: more :: rest).map some),
      ∃ k, q = (k :: field :: tag :: more :: rest).map some := by
    rw [expandKind_map_some]
    split
    · simp
    · split
      · simp
      · intro q hq
        obtain ⟨k, -, rfl⟩ := List.mem_map.mp hq
        exact ⟨k, rfl⟩
  have hfield : ∀ k, ∀ q ∈ expandField ((k :: field :: tag :: more :: rest).map some),
      ∃ f, q = (k :: f :: tag :: more :: rest).map some := by
    intro k
    rw [expandField_map_some]
    split
    · simp
    · split
      · simp
      · intro q hq
        obtain ⟨f, -, rfl⟩ := List.mem_map.mp hq
        exact ⟨f, rfl⟩
  obtain ⟨r, hr, rfl⟩ := List.mem_map.mp hp
  obtain ⟨q, hq, hr⟩ := List.mem_flatMap.mp hr
  obtain ⟨k, rfl⟩ := hkind q hq
  obtain ⟨f, rfl⟩ := hfield k r hr
  exact ⟨k, f, trim_map_some _⟩

/-! ## The paths of a query -/

theorem tokens?_map_some (ts : List String) : Parts.tokens? (ts.map some) = .ok ts := by
  have h : (ts.map some).mapM id = some ts := by
    induction ts with
    | nil => rfl
    | cons t ts ih =>
      rw [List.map_cons, List.mapM_cons, ih]
      rfl
  unfold Parts.tokens?
  rw [h]

theorem preprocess_of_ne_nil {p : Parts} (h : expansion p ≠ []) :
    preprocess p = .ok (expansion p) := by
  unfold expansion at h ⊢
  unfold preprocess
  rcases hexp : (expandKind p).flatMap expandField with _ | ⟨q, rest⟩
  · simp [hexp] at h
  · rfl

theorem preprocess_of_eq_nil {ts : List String} (h : expansion (ts.map some) = []) :
    preprocess (ts.map some) = .error (.query (.noExpansion ts)) := by
  have hexp : (expandKind (ts.map some)).flatMap expandField = [] := List.map_eq_nil_iff.mp h
  unfold preprocess
  rw [hexp, tokens?_map_some]
  rfl

/-- The check passes a list of paths. -/
theorem check_of_forall_isPath {query : Parts} {left : List (List String)} (hne : left ≠ [])
    (hall : ∀ names ∈ left, IsPath names) :
    check query (left.map (·.map some)) = .ok (left.map (·.map some)) := by
  have hfaults : (left.map (·.map some)).filterMap pathFault? = [] := by
    rw [List.filterMap_map, List.filterMap_eq_nil_iff]
    exact fun names hnames => (pathFault?_eq_none_iff names).mpr (hall names hnames)
  unfold check
  rw [if_neg (by simpa using hne), hfaults]

/-- The check refuses a list in which something is no path. -/
theorem check_of_exists_fault {ts : List String} {expanded : List Parts}
    (h : ∃ p ∈ expanded, pathFault? p ≠ none) :
    ∃ cause, check (ts.map some) expanded = .error (.query cause) := by
  obtain ⟨p, hp, hfault⟩ := h
  have hne : expanded ≠ [] := List.ne_nil_of_mem hp
  unfold check
  rw [if_neg (by simpa using hne), tokens?_map_some]
  rcases hfaults : expanded.filterMap pathFault? with _ | ⟨fault, _ | ⟨second, rest⟩⟩
  · exact absurd (List.filterMap_eq_nil_iff.mp hfaults p hp) hfault
  · exact ⟨_, rfl⟩
  · exact ⟨_, rfl⟩

theorem paths_of_ne_nil {ts : List String} (h : expansion (ts.map some) ≠ []) :
    paths (ts.map some) = check (ts.map some) (expansion (ts.map some)) := by
  unfold paths
  rw [preprocess_of_ne_nil h]
  rfl

theorem paths_of_eq_nil {ts : List String} (h : expansion (ts.map some) = []) :
    paths (ts.map some) = .error (.query (.noExpansion ts)) := by
  unfold paths
  rw [preprocess_of_eq_nil h]
  rfl

/-- A query is expanded to the paths among its combinations, or refused if there are none. -/
def Settled (ts : List String) (all : List (List String)) : Prop :=
  (all.filter (IsPath ·) ≠ [] →
    paths (ts.map some) = .ok ((all.filter (IsPath ·)).map (·.map some))) ∧
  (all.filter (IsPath ·) = [] → ∃ cause, paths (ts.map some) = .error (.query cause))

theorem settled_of_leaves {ts : List String} {all : List (List String)}
    (h : ∃ left, expansion (ts.map some) = left.map (·.map some) ∧ Leaves all left) :
    Settled ts all := by
  obtain ⟨left, hexp, hleaves⟩ := h
  constructor
  · intro hne
    have hall : ∀ names ∈ left, IsPath names := hleaves.all_or_none.resolve_right hne
    have hleft : left = all.filter (IsPath ·) := by
      rw [← hleaves.filter_eq, List.filter_eq_self.mpr (by simpa using hall)]
    rw [← hleft] at hne ⊢
    rw [paths_of_ne_nil (by rw [hexp]; simpa using hne), hexp]
    exact check_of_forall_isPath hne hall
  · intro hnone
    by_cases hnil : expansion (ts.map some) = []
    · exact ⟨_, paths_of_eq_nil hnil⟩
    rw [paths_of_ne_nil hnil]
    apply check_of_exists_fault
    obtain ⟨p, hp⟩ := List.exists_mem_of_ne_nil _ hnil
    refine ⟨p, hp, ?_⟩
    rw [hexp] at hp
    obtain ⟨names, hnames, rfl⟩ := List.mem_map.mp hp
    rw [ne_eq, pathFault?_eq_none_iff]
    have hleft := hleaves.filter_eq.trans hnone
    simpa using List.filter_eq_nil_iff.mp hleft names hnames

theorem settled_of_long (kind field tag more : String) (rest : List String) :
    Settled (kind :: field :: tag :: more :: rest) [] := by
  refine ⟨fun h => absurd rfl h, fun _ => ?_⟩
  by_cases hnil : expansion ((kind :: field :: tag :: more :: rest).map some) = []
  · exact ⟨_, paths_of_eq_nil hnil⟩
  rw [paths_of_ne_nil hnil]
  apply check_of_exists_fault
  obtain ⟨p, hp⟩ := List.exists_mem_of_ne_nil _ hnil
  refine ⟨p, hp, ?_⟩
  obtain ⟨k, f, rfl⟩ := exists_names_of_long hp
  rw [ne_eq, pathFault?_eq_none_iff]
  exact not_isPath_of_long k f tag more rest

theorem settled_combinations {ts : List String} (hts : ts ≠ []) :
    Settled ts (combinations ts) := by
  rcases ts with _ | ⟨kind, _ | ⟨field, _ | ⟨tag, _ | ⟨more, rest⟩⟩⟩⟩
  · exact absurd rfl hts
  · exact settled_of_leaves (exists_leaves_kind kind)
  · rcases hopens : opens field none with _ | _
    · exact settled_of_leaves (exists_leaves_of_not_opens kind [] (by simp) hopens)
    · exact settled_of_leaves (exists_leaves_of_opens_field kind hopens)
  · rcases hopens : opens field (some tag) with _ | _
    · exact settled_of_leaves (exists_leaves_of_not_opens kind [tag] (by simp) hopens)
    · exact settled_of_leaves (exists_leaves_of_opens_tag kind tag hopens)
  · exact settled_of_long kind field tag more rest

/-- A query that denotes a path is expanded to all paths that it denotes. -/
theorem paths_of_denoted {query : String} (h : denoted query ≠ []) :
    paths (parts query) = .ok ((denoted query).map (·.map some)) :=
  (settled_combinations (tokens_ne_nil query)).1 h

/-- A query that denotes no path is refused. -/
theorem paths_of_not_denoted {query : String} (h : denoted query = []) :
    ∃ cause, paths (parts query) = .error (.query cause) :=
  (settled_combinations (tokens_ne_nil query)).2 h

end UpdateDispatch.Filter
