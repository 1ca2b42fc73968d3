import UpdateDispatch.Proofs.Filter.Predicate

/-!
# The update kinds of a filter

The update kind of a path is its first name, and so the part of its text before the first colon.
The kinds of an accepted list of queries are those of all its paths. They are sound: an update that
passes has one of them (`exists_kind_of_passes`). They are tight: for each of them some update that
has nothing else passes (`exists_update_of_kind`).

The second is not a matter of one path, since paths that are prefixes of other ones are lost: the
update is made for a longest path with the kind, and a tag `me` takes the number of the bot.
-/

namespace UpdateDispatch.Filter

/-! ## The kind of a path -/

/-- The part of a text before its first colon. -/
def kindOf (text : String) : String := String.ofList (text.toList.takeWhile (· != ':'))

theorem kindOf_joined {kind : String} (h : ColonFree kind) (rest : List String) :
    kindOf (joined ":" (kind :: rest)) = kind := by
  have hfree : ∀ c ∈ kind.toList, (c != ':') = true := fun c hc => by
    rw [bne_iff_ne]
    rintro rfl
    exact h hc
  have htake : (joined ":" (kind :: rest)).toList.takeWhile (· != ':') = kind.toList := by
    rcases rest with _ | ⟨next, rest⟩
    · exact List.takeWhile_eq_self_iff.mpr hfree
    · have htext : (joined ":" (kind :: next :: rest)).toList =
          kind.toList ++ ':' :: (joined ":" (next :: rest)).toList := by
        rw [joined, String.toList_append, String.toList_append, List.append_assoc]
        · rfl
        · simp
      rw [htext, List.takeWhile_append_of_pos hfree]
      simp
  rw [kindOf, htake, String.ofList_toList]

/-- The update kinds of the paths that a list of queries denotes. -/
def denotedKinds (queries : List String) : List String :=
  (queries.flatMap denoted).map fun path => path.headD ""

theorem mem_denotedKinds {queries : List String} {kind : String} :
    kind ∈ denotedKinds queries ↔ ∃ rest, kind :: rest ∈ queries.flatMap denoted := by
  unfold denotedKinds
  rw [List.mem_map]
  constructor
  · rintro ⟨path, hpath, rfl⟩
    rcases path with _ | ⟨kind, rest⟩
    · exact absurd rfl (isPath_of_mem_flatMap_denoted hpath).ne_nil
    · exact ⟨rest, hpath⟩
  · rintro ⟨rest, hpath⟩
    exact ⟨_, hpath, rfl⟩

/-- The texts of the paths of a list of queries begin with the kinds of the paths. -/
theorem map_kindOf_texts (queries : List String) :
    ((queries.flatMap denoted).map (joined ":")).map kindOf = denotedKinds queries := by
  rw [List.map_map]
  refine List.map_congr_left fun path hpath => ?_
  obtain ⟨query, -, hmem⟩ := List.mem_flatMap.mp hpath
  rcases path with _ | ⟨kind, rest⟩
  · exact absurd rfl (isPath_of_mem_denoted hmem).ne_nil
  · have hfree := colonFree_of_mem_combinations (fun _ => colonFree_of_mem_tokens)
      (List.mem_filter.mp hmem).1
    exact kindOf_joined (hfree kind List.mem_cons_self) rest

/-! ## Sound -/

/-- What satisfies a path has its update kind. -/
theorem isNull_of_satisfies {update me : Json} {kind : String} {rest : List String}
    (h : Satisfies update me (kind :: rest)) : (update.field kind).isNull = false := by
  rcases rest with _ | ⟨field, rest⟩
  · exact h
  · have htruthy := ((satisfies_cons_cons update me kind field rest).mp h).1
    rcases hnull : (update.field kind).isNull with _ | _
    · rfl
    · exact absurd (Json.isNull_iff.mp hnull) (Json.ne_null_of_truthy htruthy)

/-- An update that passes has one of the kinds. -/
theorem exists_kind_of_passes {queries : List String} {c : Context}
    (h : c.passes (Predicate.ofPaths (queries.flatMap denoted)) = true) :
    ∃ kind ∈ denotedKinds queries, (c.update.field kind).isNull = false := by
  obtain ⟨path, hmax, hsat⟩ := (passes_ofPaths_iff queries c).mp h
  rcases path with _ | ⟨kind, rest⟩
  · exact hsat.elim
  · exact ⟨kind, mem_denotedKinds.mpr ⟨rest, hmax.1⟩, isNull_of_satisfies hsat⟩

/-! ## Tight -/

/-- Every path of a list is a prefix of one that no other path goes beyond. -/
theorem exists_maximal {paths : List (List String)} {path : List String} (h : path ∈ paths) :
    ∃ longest, Maximal paths longest ∧ path <+: longest := by
  have hne : (paths.toFinset.filter (path <+: ·)).Nonempty :=
    ⟨path, Finset.mem_filter.mpr ⟨List.mem_toFinset.mpr h, List.prefix_rfl⟩⟩
  obtain ⟨longest, hmem, hmax⟩ := Finset.exists_max_image _ List.length hne
  rw [Finset.mem_filter, List.mem_toFinset] at hmem
  refine ⟨longest, ⟨hmem.1, fun other hother hstart => ?_⟩, hmem.2⟩
  have hle := hmax other (Finset.mem_filter.mpr
    ⟨List.mem_toFinset.mpr hother, hmem.2.trans hstart⟩)
  exact (hstart.eq_of_length_le hle).symm

/-- An item that has a tag for a bot with the given number. -/
def taggedItem (me : Json) (tag : String) : Json :=
  if tag = "me" then .obj [("id", me)] else .obj [(tag, .bool true)]

theorem tagged_taggedItem {me : Json} (hme : me.same me = true) (tag : String) :
    Tagged me tag (taggedItem me tag) := by
  unfold Tagged taggedItem
  split
  · exact hme
  · left
    simp [Json.field, Named.find?, Json.truthy]

/-- An update with what a path asks for and nothing else. -/
def exactly (me : Json) : List String → Json
  | [kind, field, tag] => .obj [(kind, .obj [(field, taggedItem me tag)])]
  | path => bare path

theorem satisfies_exactly {me : Json} (hme : me.same me = true) {path : List String}
    (hne : path ≠ []) (hlen : path.length ≤ 3) : Satisfies (exactly me path) me path := by
  rcases path with _ | ⟨kind, _ | ⟨field, _ | ⟨tag, _ | ⟨more, rest⟩⟩⟩⟩
  · exact absurd rfl hne
  · exact satisfies_bare hne (by simp) me
  · exact satisfies_bare hne (by simp) me
  · have hkind : (exactly me [kind, field, tag]).field kind =
        .obj [(field, taggedItem me tag)] := by
      simp [exactly, Json.field, Named.find?]
    have hfield : (Json.obj [(field, taggedItem me tag)]).field field = taggedItem me tag := by
      simp [Json.field, Named.find?]
    have hlisted : (taggedItem me tag).listed = [taggedItem me tag] := by
      unfold taggedItem
      split <;> rfl
    have hitem : (taggedItem me tag).truthy = true ∧ (taggedItem me tag).isNull = false := by
      unfold taggedItem
      split <;> exact ⟨rfl, rfl⟩
    rw [Satisfies, hkind, hfield, hlisted]
    exact ⟨rfl, hitem.1, _, List.mem_singleton_self _, hitem.2, tagged_taggedItem hme tag⟩
  · simp only [List.length_cons] at hlen
    omega

theorem exactly_cons (me : Json) (kind : String) (rest : List String) :
    ∃ v, exactly me (kind :: rest) = .obj [(kind, v)] := by
  unfold exactly
  split
  · next heq =>
    cases heq
    exact ⟨_, rfl⟩
  · exact ⟨_, rfl⟩

/-- For each of the kinds an update with that kind alone passes. -/
theorem exists_update_of_kind {queries : List String} {kind : String}
    (h : kind ∈ denotedKinds queries) {me : Identity} (hme : me.id.same me.id = true) :
    ∃ v, ({ update := .obj [(kind, v)], me } : Context).passes
      (Predicate.ofPaths (queries.flatMap denoted)) = true := by
  obtain ⟨rest, hpath⟩ := mem_denotedKinds.mp h
  obtain ⟨longest, hmax, more, rfl⟩ := exists_maximal hpath
  have hp := isPath_of_mem_flatMap_denoted hmax.1
  obtain ⟨v, hv⟩ := exactly_cons me.id kind (rest ++ more)
  refine ⟨v, (passes_ofPaths_iff queries _).mpr ⟨_, hmax, ?_⟩⟩
  have hsat := satisfies_exactly hme hp.ne_nil hp.length_le
  rwa [List.cons_append, hv] at hsat

end UpdateDispatch.Filter
