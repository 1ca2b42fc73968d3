import UpdateDispatch.Proofs.Basic
import UpdateDispatch.Proofs.Filter.Tokens

/-!
# Paths of the schema

`IsPath` says what a path of the schema is: an update kind, one of its fields, or a tag below one
of its fields. `pathFault?_eq_none_iff` shows that the check of one expanded query accepts exactly
the paths.
-/

namespace UpdateDispatch.Filter

/-! ## The schema -/

theorem schema_keys_nodup : (schema.map Prod.fst).Nodup := by decide +kernel

theorem fields_keys_nodup : ∀ entry ∈ schema, (entry.2.map Prod.fst).Nodup := by decide +kernel

theorem find?_schema_eq_some_iff {kind : String} {fields : Fields} :
    Named.find? kind schema = some fields ↔ (kind, fields) ∈ schema :=
  ⟨Named.mem_of_find?_eq_some, Named.find?_eq_some_of_mem schema_keys_nodup⟩

theorem find?_fields_eq_some_iff {kind field : String} {fields : Fields} {tags : List String}
    (hkind : (kind, fields) ∈ schema) :
    Named.find? field fields = some tags ↔ (field, tags) ∈ fields :=
  ⟨Named.mem_of_find?_eq_some, Named.find?_eq_some_of_mem (fields_keys_nodup _ hkind)⟩

theorem fieldsOf_of_mem {kind : String} {fields : Fields} (hkind : (kind, fields) ∈ schema) :
    fieldsOf kind = fields := by
  unfold fieldsOf
  rw [find?_schema_eq_some_iff.mpr hkind]
  rfl

theorem tagsOf_of_mem {kind field : String} {fields : Fields} {tags : List String}
    (hkind : (kind, fields) ∈ schema) (hfield : (field, tags) ∈ fields) :
    tagsOf kind field = tags := by
  unfold tagsOf
  rw [fieldsOf_of_mem hkind, (find?_fields_eq_some_iff hkind).mpr hfield]
  rfl

/-! ## Paths -/

/-- The paths of the schema: from an update kind to one of its fields and to a tag below it. -/
inductive IsPath : List String → Prop
  | kind {kind : String} {fields : Fields} (hkind : (kind, fields) ∈ schema) : IsPath [kind]
  | field {kind field : String} {fields : Fields} {tags : List String}
    (hkind : (kind, fields) ∈ schema) (hfield : (field, tags) ∈ fields) : IsPath [kind, field]
  | tag {kind field tag : String} {fields : Fields} {tags : List String}
    (hkind : (kind, fields) ∈ schema) (hfield : (field, tags) ∈ fields) (htag : tag ∈ tags) :
    IsPath [kind, field, tag]

theorem isPath_kind_iff {kind : String} : IsPath [kind] ↔ kind ∈ kindNames := by
  unfold kindNames
  constructor
  · rintro ⟨hkind⟩
    exact List.mem_map.mpr ⟨_, hkind, rfl⟩
  · intro h
    obtain ⟨⟨_, fields⟩, hkind, rfl⟩ := List.mem_map.mp h
    exact .kind hkind

theorem isPath_field_iff {kind field : String} :
    IsPath [kind, field] ↔ hasField kind field = true := by
  unfold hasField
  constructor
  · rintro (_ | ⟨hkind, hfield⟩)
    rw [fieldsOf_of_mem hkind, (find?_fields_eq_some_iff hkind).mpr hfield]
    rfl
  · intro h
    obtain ⟨tags, htags⟩ := Option.isSome_iff_exists.mp h
    rcases hkind : Named.find? kind schema with _ | fields
    · rw [fieldsOf, hkind] at htags
      cases htags
    · have hmem := find?_schema_eq_some_iff.mp hkind
      rw [fieldsOf_of_mem hmem] at htags
      exact .field hmem ((find?_fields_eq_some_iff hmem).mp htags)

theorem isPath_tag_iff {kind field tag : String} :
    IsPath [kind, field, tag] ↔ tag ∈ tagsOf kind field := by
  constructor
  · rintro (_ | _ | ⟨hkind, hfield, htag⟩)
    rwa [tagsOf_of_mem hkind hfield]
  · intro h
    have hfield : hasField kind field = true := by
      unfold hasField
      unfold tagsOf at h
      rcases hfind : Named.find? field (fieldsOf kind) with _ | tags
      · rw [hfind] at h
        cases h
      · rfl
    rcases isPath_field_iff.mpr hfield with _ | ⟨hkind, hmem⟩
    rw [tagsOf_of_mem hkind hmem] at h
    exact .tag hkind hmem h

theorem IsPath.ne_nil {names : List String} (h : IsPath names) : names ≠ [] := by
  cases h <;> exact List.cons_ne_nil _ _

theorem IsPath.length_le {names : List String} (h : IsPath names) : names.length ≤ 3 := by
  cases h <;> simp

theorem not_isPath_of_long (kind field tag more : String) (rest : List String) :
    ¬ IsPath (kind :: field :: tag :: more :: rest) := by
  intro h
  have hlen := h.length_le
  simp only [List.length_cons] at hlen
  omega

theorem IsPath.mem_kindNames {kind : String} {rest : List String} (h : IsPath (kind :: rest)) :
    kind ∈ kindNames := by
  rcases h with hkind | ⟨hkind, -⟩ | ⟨hkind, -⟩ <;> exact isPath_kind_iff.mp (.kind hkind)

theorem IsPath.hasField {kind field : String} {rest : List String}
    (h : IsPath (kind :: field :: rest)) : hasField kind field = true := by
  rcases h with _ | ⟨hkind, hfield⟩ | ⟨hkind, hfield, -⟩ <;>
    exact isPath_field_iff.mp (.field hkind hfield)

/-! ## The check of one expanded query -/

/-- A level of names all of which are present. -/
theorem levels_map_some (names : List String) :
    Parts.levels (names.map some) =
      { kind := names.head?, field := names[1]?, tag := names[2]?, rest := names.drop 3 } := by
  unfold Parts.levels
  rcases names with _ | ⟨k, _ | ⟨f, _ | ⟨t, rest⟩⟩⟩ <;> simp [List.filterMap_map]

/-- The check accepts an expanded query exactly if it is a path. -/
theorem pathFault?_eq_none_iff (names : List String) :
    pathFault? (names.map some) = none ↔ IsPath names := by
  unfold pathFault?
  rw [levels_map_some]
  rcases names with _ | ⟨kind, rest⟩
  · simpa using fun h : IsPath [] => h.ne_nil rfl
  rcases hkind : Named.find? kind schema with _ | fields
  · -- an unknown kind has no paths
    have hpath : ¬ IsPath (kind :: rest) := fun h => by
      obtain ⟨⟨_, fields⟩, hmem, rfl⟩ := List.mem_map.mp h.mem_kindNames
      rw [find?_schema_eq_some_iff.mpr hmem] at hkind
      cases hkind
    simpa [hkind] using hpath
  have hmem := find?_schema_eq_some_iff.mp hkind
  rcases rest with _ | ⟨field, rest⟩
  · simpa [hkind] using IsPath.kind hmem
  rcases hfield : Named.find? field fields with _ | tags
  · have hno : ¬ hasField kind field = true := by
      rw [hasField, fieldsOf_of_mem hmem, hfield]
      exact Bool.false_ne_true
    have hpath : ¬ IsPath (kind :: field :: rest) := fun h => hno h.hasField
    simpa [hkind, hfield] using hpath
  have hmemField := (find?_fields_eq_some_iff hmem).mp hfield
  rcases rest with _ | ⟨tag, rest⟩
  · simpa [hkind, hfield] using IsPath.field hmem hmemField
  rcases rest with _ | ⟨more, rest⟩
  · rw [isPath_tag_iff, tagsOf_of_mem hmem hmemField]
    by_cases htag : tag ∈ tags <;> simp [hkind, hfield, htag]
  · have hlong := not_isPath_of_long kind field tag more rest
    by_cases htag : tag ∈ tags <;> simp [hkind, hfield, htag, hlong]

end UpdateDispatch.Filter
