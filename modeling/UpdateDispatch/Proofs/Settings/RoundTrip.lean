import UpdateDispatch.Proofs.Json.RoundTrip
import UpdateDispatch.Proofs.Settings.Short

/-!
# Saved settings come back

Settings that validation gives are written to a file and read back as they were, and writing them
again gives the same text (`load_saved`). A file leaves out what is null and spells names in one
word. What is left out has null as its default, and every name has a form of its own in files that
leads back to it (`toSnake_toCamel`).

Whole numbers of more than `Json.maxDigits` digits have no text, neither for writing nor for
reading, so the identity has to be `Short`. It is, whatever text or environment it comes from.
-/

namespace UpdateDispatch

/-! ## Names -/

namespace Settings

/-- The names of the fields of settings and of identities. -/
def knownNames : List String :=
  ["bot_info", "allowed_updates", "log_level", "log_json"] ++ Identity.fieldNames

/-- The form of a name in files leads back to the name. -/
theorem toSnake_toCamel : ∀ name ∈ knownNames, toSnake (toCamel name) = name := by
  decide

end Settings

/-! ## Identities -/

namespace Identity

variable {i : Identity}

/-- A proper identity with its fields in sight. -/
theorem Proper.exists_fields (h : i.Proper) :
    ∃ n b first user last join read inline,
      i = ⟨.int n, .bool b, .str first, .str user, last, .bool join, .bool read, .bool inline⟩ ∧
        (last = .null ∨ ∃ s, last = .str s) := by
  obtain ⟨⟨n, hn⟩, ⟨b, hb⟩, ⟨first, hf⟩, ⟨user, hu⟩, hl, ⟨join, hj⟩, ⟨read, hr⟩, ⟨inline, hi⟩⟩ := h
  exact ⟨n, b, first, user, i.lastName, join, read, inline,
    by rw [← hn, ← hb, ← hf, ← hu, ← hj, ← hr, ← hi], hl⟩

/-- The fields that are present in a file are validated to the identity. -/
theorem validate_presentFields (h : i.Proper) (place : String) :
    validate place (.obj (Settings.presentFields i.fields)) = .ok i := by
  obtain ⟨n, b, first, user, last, join, read, inline, rfl, rfl | ⟨s, rfl⟩⟩ := h.exists_fields
  · rfl
  · rfl

theorem plain_fields (h : i.Proper) (short : i.Short) :
    (Json.obj i.fields).Plain (· ∈ Settings.knownNames) := by
  obtain ⟨n, b, first, user, last, join, read, inline, rfl, rfl | ⟨s, rfl⟩⟩ := h.exists_fields
  all_goals
    obtain - | - | digits := short
    refine .obj (show fieldNames.Nodup by decide) ?_ ?_
    · simp [fields, Settings.knownNames, fieldNames]
    · simp [fields, Json.Plain.null, Json.Plain.bool, Json.Plain.str, Json.Plain.int digits]

end Identity

/-! ## The value in a file -/

namespace Settings

theorem plain_presentFields {fields : List (String × Json)} {p : String → Prop}
    (h : (Json.obj fields).Plain p) : (Json.obj (presentFields fields)).Plain p := by
  obtain - | - | - | - | - | ⟨distinct, keys, values⟩ := h
  exact .obj (distinct.sublist (List.filter_sublist.map Prod.fst))
    (fun field hf => keys field (List.mem_of_mem_filter hf))
    (fun field hf => values field (List.mem_of_mem_filter hf))

/-- The fields of settings that a file holds, under the names of settings. -/
def savedFields (s : Settings) : List (String × Json) :=
  presentFields <| Named.set "bot_info"
    ((s.identity.map fun i => Json.obj (presentFields i.fields)).getD .null) s.fields

variable {s : Settings}

theorem plain_savedFields (h : s.Proper) (short : s.Short) :
    (Json.obj s.savedFields).Plain (· ∈ knownNames) := by
  have names : ["bot_info", "allowed_updates", "log_level", "log_json"].Nodup := by decide
  obtain ⟨identity, allowed, level, logJson⟩ := s
  have who : ((identity.map fun i => Json.obj (presentFields i.fields)).getD .null).Plain
      (· ∈ knownNames) := by
    cases identity with
    | none => exact .null
    | some i => exact plain_presentFields (Identity.plain_fields (h.identity i rfl) (short i rfl))
  have kinds : ((allowed.map fun kinds => Json.arr (kinds.map .str)).getD .null).Plain
      (· ∈ knownNames) := by
    cases allowed with
    | none => exact .null
    | some kinds => exact .arr (List.forall_mem_map.mpr fun kind _ => .str kind)
  refine plain_presentFields (.obj names ?_ (List.forall_mem_cons.mpr ⟨who, ?_⟩))
  · simp [Named.set, fields, knownNames]
  · exact List.forall_mem_cons.mpr ⟨kinds, by simp [Json.Plain.str, Json.Plain.bool]⟩

theorem plain_fileValue (h : s.Proper) (short : s.Short) : s.fileValue.Plain fun _ => True :=
  (plain_savedFields h short).mapKeys toSnake_toCamel

/-- The names of a file lead back to the fields that were saved. -/
theorem snakeKeys_fileValue (h : s.Proper) (short : s.Short) :
    s.fileValue.snakeKeys = .obj s.savedFields :=
  Json.mapKeys_mapKeys toSnake_toCamel (plain_savedFields h short).keyed

/-! ## Validation of saved fields -/

theorem levelOf_name (level : LogLevel) : levelOf (.str level.name) = .ok level := by
  cases level <;> rfl

theorem all_mapIdx_str {rule : Nat → Json → Checked String} (kinds : List String)
    (h : ∀ index kind, rule index (.str kind) = .ok kind) :
    Checked.all ((kinds.map Json.str).mapIdx rule) = .ok kinds := by
  induction kinds generalizing rule with
  | nil => rfl
  | cons kind kinds ih =>
    rw [List.map_cons, List.mapIdx_cons, Checked.all, h 0 kind]
    exact Checked.ap_eq_ok.mpr ⟨_, rfl, _, ih fun index => h (index + 1), rfl⟩

theorem allowedOf_arr {kinds : List String} (known : ∀ kind ∈ kinds, kind ∈ Filter.kindNames) :
    allowedOf (.arr (kinds.map Json.str)) = .ok (some kinds) :=
  Checked.map_eq_ok.mpr ⟨kinds, Checked.andThen_eq_ok.mpr
    ⟨kinds, all_mapIdx_str kinds fun _ _ => rfl, knownKinds_of_known known⟩, rfl⟩

/-- The saved fields are validated to the settings. -/
theorem validate_savedFields (h : s.Proper) : validate s.savedFields = .ok s := by
  obtain ⟨identity, allowed, level, logJson⟩ := s
  refine Checked.ap_eq_ok.mpr ⟨_, Checked.ap_eq_ok.mpr ⟨_, Checked.ap_eq_ok.mpr
    ⟨_, Checked.map_eq_ok.mpr ⟨identity, ?who, rfl⟩, allowed, ?kinds, rfl⟩, level, ?level, rfl⟩,
    logJson, ?json, rfl⟩
  case who =>
    cases identity with
    | none => cases allowed <;> rfl
    | some i =>
      have back : identityOf (.obj (presentFields i.fields)) = .ok (some i) :=
        Checked.map_eq_ok.mpr ⟨i, Identity.validate_presentFields (h.identity i rfl) _, rfl⟩
      cases allowed <;> exact back
  case kinds =>
    cases allowed with
    | none => cases identity <;> rfl
    | some kinds => cases identity <;> exact allowedOf_arr (h.kinds kinds rfl)
  case level => cases identity <;> cases allowed <;> exact levelOf_name level
  case json => cases identity <;> cases allowed <;> rfl

/-! ## An environment that says nothing -/

/-- No variable of an environment has a name that starts as those of settings do. -/
def Environment.Silent (env : Environment) : Prop :=
  ∀ entry ∈ env, ¬variableStart.toList <+: (Text.lower entry.1).toList

theorem prefix_of_afterWord? {start name rest : List Char}
    (h : Json.afterWord? start name = some rest) : start <+: name := by
  induction start generalizing name with
  | nil => exact List.nil_prefix
  | cons c start ih =>
    cases name with
    | nil => cases h
    | cons d name =>
      rw [Json.afterWord?] at h
      split_ifs at h with same
      exact List.cons_prefix_cons.mpr ⟨same, ih h⟩

variable {env : Environment}

theorem not_prefix_of_lowered (silent : env.Silent) :
    ∀ field ∈ env.lowered, ¬variableStart.toList <+: field.1.toList := by
  unfold Environment.lowered
  refine List.foldlRecOn env _
    (motive := fun vars : List (String × Json) =>
      ∀ field ∈ vars, ¬variableStart.toList <+: field.1.toList)
    (List.forall_mem_nil _) fun vars ih entry mem field hf => ?_
  obtain rfl | before := Named.mem_set hf
  · exact silent entry mem
  · exact ih field before

theorem find?_lowered (silent : env.Silent) (name : String) :
    Named.find? (variableStart ++ name) env.lowered = none := by
  refine Named.find?_of_not_mem fun mem => ?_
  obtain ⟨field, hf, same⟩ := List.mem_map.mp mem
  refine not_prefix_of_lowered silent field hf ?_
  rw [same, String.toList_append]
  exact List.prefix_append _ _

theorem partsOf_lowered (silent : env.Silent) (name : String) : partsOf name env.lowered = [] := by
  unfold partsOf
  refine List.foldlRecOn env.lowered _ (motive := (· = [])) rfl fun parts ih field mem => ?_
  cases start : afterStart? (variableStart ++ name ++ "__").toList field.1.toList with
  | none => simpa only [start] using ih
  | some rest =>
    have longer := prefix_of_afterWord? start
    rw [String.append_assoc, String.toList_append] at longer
    exact absurd ((List.prefix_append _ _).trans longer) (not_prefix_of_lowered silent field mem)

/-- An environment without variables of settings gives no fields. -/
theorem fields_of_silent (silent : env.Silent) : env.fields = [] := by
  simp [Environment.fields, recordField, find?_lowered silent, partsOf_lowered silent, Json.isNull]

/-! ## Loading what was saved -/

/-- Distinct fields are laid over others by adding them. -/
theorem mergeFields_of_nodup (base fields : List (String × Json))
    (h : ((base ++ fields).map Prod.fst).Nodup) :
    Json.mergeFields base fields = base ++ fields := by
  induction fields generalizing base with
  | nil => simp [Json.mergeFields]
  | cons field fields ih =>
    obtain ⟨k, v⟩ := field
    have first : k ∉ base.map Prod.fst := Named.not_mem_of_nodup h
    rw [Json.mergeFields, Named.find?_of_not_mem first, Named.set_of_not_mem v first,
      ih _ (by simpa using h)]
    simp

theorem ofFields_savedFields (h : s.Proper) (short : s.Short) (silent : env.Silent) :
    ofFields env s.savedFields = .ok s := by
  obtain - | - | - | - | - | ⟨distinct, -, -⟩ := plain_savedFields h short
  have merged : Json.mergeFields [] s.savedFields = s.savedFields :=
    mergeFields_of_nodup [] _ distinct
  rw [ofFields, fields_of_silent silent, merged, validate_savedFields h]

/-- The text of settings is a file that is accepted as these settings. -/
theorem accepted_saved (h : s.Proper) (short : s.Short) (silent : env.Silent) :
    Accepted env s.saved.toUTF8 s := by
  obtain ⟨given, value⟩ : ∃ given, s.fileValue = .obj given := ⟨_, rfl⟩
  have read : Json.read s.saved = .ok s.fileValue := Json.read_indented (plain_fileValue h short)
  have names := snakeKeys_fileValue h short
  rw [value] at read names
  exact ⟨s.saved, given, s.savedFields, rfl, read, names, ofFields_savedFields h short silent⟩

/-- In the environment, the file that the settings are saved to gives them back without a warning,
and saving what was loaded gives the same text again. -/
structure ComesBack (env : Environment) (s : Settings) : Prop where
  load : load env (some s.saved.toUTF8) = .ok (s, false)
  saved : ∀ t rejected, Settings.load env (some s.saved.toUTF8) = .ok (t, rejected) →
    t.saved = s.saved

theorem comesBack (h : s.Proper) (short : s.Short) (silent : env.Silent) : ComesBack env s := by
  have read : load env (some s.saved.toUTF8) = .ok (s, false) := by
    rw [load, loaded, ofFile?_of_accepted (accepted_saved h short silent)]
    rfl
  refine ⟨read, fun t rejected again => ?_⟩
  rw [read] at again
  cases again
  rfl

theorem comesBack_of_ofFields {env' : Environment} {given : List (String × Json)}
    (valid : ofFields env' given = .ok s) (short : (Json.obj given).Short) (silent : env.Silent) :
    ComesBack env s :=
  comesBack (proper_of_validate (validate_of_ofFields valid)) (short_of_ofFields valid short) silent

end Settings
end UpdateDispatch
