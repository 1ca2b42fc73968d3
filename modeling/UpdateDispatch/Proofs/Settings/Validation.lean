import UpdateDispatch.Settings.Basic
import Mathlib.Tactic.SplitIfs

/-!
# What validation gives

Settings that pass the validation have fields of the right types: an identity with a whole number,
flags and texts, and known update kinds only (`Settings.Proper`). Every rule for a value gives a
value of its own form, and a checked record is good only if every one of its fields is.
-/

namespace UpdateDispatch

/-! ## Checked values -/

namespace Checked

theorem map_eq_ok {α β : Type} {f : α → β} {a : Checked α} {b : β} :
    a.map f = .ok b ↔ ∃ x, a = .ok x ∧ f x = b := by
  cases a with
  | error faults =>
    constructor
    · rintro ⟨⟩
    · rintro ⟨_, ⟨⟩, _⟩
  | ok a =>
    constructor
    · exact fun h => ⟨a, rfl, Except.ok.inj h⟩
    · rintro ⟨_, ⟨⟩, rfl⟩
      rfl

/-- A function on a checked value is good if both of them are. -/
theorem ap_eq_ok {α β : Type} {f : Checked (α → β)} {a : Checked α} {b : β} :
    f.ap a = .ok b ↔ ∃ g, f = .ok g ∧ ∃ x, a = .ok x ∧ g x = b := by
  constructor
  · intro h
    cases f with
    | error faults => cases a <;> cases h
    | ok g =>
      cases a with
      | error faults => cases h
      | ok a => exact ⟨g, rfl, a, rfl, Except.ok.inj h⟩
  · rintro ⟨g, rfl, x, rfl, rfl⟩
    rfl

theorem andThen_eq_ok {α β : Type} {f : α → Checked β} {a : Checked α} {b : β} :
    a.andThen f = .ok b ↔ ∃ x, a = .ok x ∧ f x = .ok b := by
  constructor
  · intro h
    cases a with
    | error faults => cases h
    | ok a => exact ⟨a, rfl, h⟩
  · rintro ⟨x, rfl, h⟩
    exact h

end Checked

namespace Settings

theorem eq_ok_of_checkedAt {α : Type} {place : String} {answer : Except FieldCause α} {x : α}
    (h : checkedAt place answer = .ok x) : answer = .ok x := by
  cases answer with
  | error cause => cases h
  | ok y => exact congrArg Except.ok (Except.ok.inj h)

/-! ## Rules -/

theorem exists_int_of_integer {v w : Json} (h : integer v = .ok w) : ∃ n, w = .int n := by
  unfold integer at h
  split at h
  · exact ⟨_, (Except.ok.inj h).symm⟩
  · exact ⟨_, (Except.ok.inj h).symm⟩
  · next x =>
    cases hx : doubleInteger x with
    | error cause => simp [hx, Except.map] at h
    | ok n => exact ⟨n, by simpa [hx, Except.map, eq_comm] using h⟩
  · dsimp only at h
    split at h
    · cases h
    · split at h
      · exact ⟨_, (Except.ok.inj h).symm⟩
      · cases h
  · cases h

theorem exists_bool_of_flag {v w : Json} (h : flag v = .ok w) : ∃ b, w = .bool b := by
  unfold flag at h
  cases hv : truth v with
  | error cause => simp [hv, Except.map] at h
  | ok b => exact ⟨b, by simpa [hv, Except.map, eq_comm] using h⟩

theorem exists_str_of_text {v w : Json} (h : text v = .ok w) : ∃ s, w = .str s := by
  unfold text at h
  split at h
  · exact ⟨_, (Except.ok.inj h).symm⟩
  · cases h

theorem null_or_str_of_optionalText {v w : Json} (h : optionalText v = .ok w) :
    w = .null ∨ ∃ s, w = .str s := by
  unfold optionalText at h
  split at h
  · exact .inl (Except.ok.inj h).symm
  · exact .inr (exists_str_of_text h)

end Settings

/-! ## Identities -/

/-- An identity whose fields have the types that they are to have. -/
structure Identity.Proper (i : Identity) : Prop where
  id : ∃ n, i.id = .int n
  isBot : ∃ b, i.isBot = .bool b
  firstName : ∃ s, i.firstName = .str s
  username : ∃ s, i.username = .str s
  lastName : i.lastName = .null ∨ ∃ s, i.lastName = .str s
  canJoinGroups : ∃ b, i.canJoinGroups = .bool b
  canReadAllGroupMessages : ∃ b, i.canReadAllGroupMessages = .bool b
  supportsInlineQueries : ∃ b, i.supportsInlineQueries = .bool b

/-- A field that may be missing has its default, or what its rule gives. -/
theorem Settings.of_optional {place name : String} {fields : List (String × Json)}
    {rule : Json → Except FieldCause Json} {default w : Json} {P : Json → Prop}
    (hrule : ∀ v w, rule v = .ok w → P w) (hdefault : P default)
    (h : (match Named.find? name fields with
      | some v => checkedAt place (rule v)
      | none => .ok default) = .ok w) : P w := by
  split at h
  · exact hrule _ _ (eq_ok_of_checkedAt h)
  · exact Except.ok.inj h ▸ hdefault

/-- The number of an identity is what the rule for whole numbers gives. -/
theorem Identity.integer_of_validate {place : String} {fields : List (String × Json)}
    {i : Identity} (h : Identity.validate place (.obj fields) = .ok i) :
    ∃ v, Named.find? "id" fields = some v ∧ Settings.integer v = .ok i.id := by
  obtain ⟨_, h7, _, -, rfl⟩ := Checked.ap_eq_ok.mp h
  obtain ⟨_, h6, _, -, rfl⟩ := Checked.ap_eq_ok.mp h7
  obtain ⟨_, h5, _, -, rfl⟩ := Checked.ap_eq_ok.mp h6
  obtain ⟨_, h4, _, -, rfl⟩ := Checked.ap_eq_ok.mp h5
  obtain ⟨_, h3, _, -, rfl⟩ := Checked.ap_eq_ok.mp h4
  obtain ⟨_, h2, _, -, rfl⟩ := Checked.ap_eq_ok.mp h3
  obtain ⟨_, h1, _, -, rfl⟩ := Checked.ap_eq_ok.mp h2
  obtain ⟨id, hid, rfl⟩ := Checked.map_eq_ok.mp h1
  have rule := Settings.eq_ok_of_checkedAt hid
  split at rule
  · next v hfind => exact ⟨v, hfind, rule⟩
  · cases rule

theorem Identity.proper_of_validate {place : String} {v : Json} {i : Identity}
    (h : Identity.validate place v = .ok i) : i.Proper := by
  cases v with
  | obj fields =>
    obtain ⟨_, h7, inline, hinline, rfl⟩ := Checked.ap_eq_ok.mp h
    obtain ⟨_, h6, read, hread, rfl⟩ := Checked.ap_eq_ok.mp h7
    obtain ⟨_, h5, join, hjoin, rfl⟩ := Checked.ap_eq_ok.mp h6
    obtain ⟨_, h4, last, hlast, rfl⟩ := Checked.ap_eq_ok.mp h5
    obtain ⟨_, h3, user, huser, rfl⟩ := Checked.ap_eq_ok.mp h4
    obtain ⟨_, h2, first, hfirst, rfl⟩ := Checked.ap_eq_ok.mp h3
    obtain ⟨_, h1, bot, hbot, rfl⟩ := Checked.ap_eq_ok.mp h2
    obtain ⟨id, -, rfl⟩ := Checked.map_eq_ok.mp h1
    obtain ⟨_, -, hid⟩ := Identity.integer_of_validate h
    exact
      { id := Settings.exists_int_of_integer hid
        isBot := Settings.of_optional (fun _ _ => Settings.exists_bool_of_flag) ⟨_, rfl⟩ hbot
        firstName := Settings.of_optional (fun _ _ => Settings.exists_str_of_text) ⟨_, rfl⟩ hfirst
        username := Settings.of_optional (fun _ _ => Settings.exists_str_of_text) ⟨_, rfl⟩ huser
        lastName :=
          Settings.of_optional (fun _ _ => Settings.null_or_str_of_optionalText) (.inl rfl) hlast
        canJoinGroups :=
          Settings.of_optional (fun _ _ => Settings.exists_bool_of_flag) ⟨_, rfl⟩ hjoin
        canReadAllGroupMessages :=
          Settings.of_optional (fun _ _ => Settings.exists_bool_of_flag) ⟨_, rfl⟩ hread
        supportsInlineQueries :=
          Settings.of_optional (fun _ _ => Settings.exists_bool_of_flag) ⟨_, rfl⟩ hinline }
  | _ => cases h

/-! ## Settings -/

namespace Settings

/-- Settings with a proper identity and known update kinds only. -/
structure Proper (s : Settings) : Prop where
  identity : ∀ i ∈ s.identity, i.Proper
  kinds : ∀ kinds ∈ s.allowedKinds, ∀ kind ∈ kinds, kind ∈ Filter.kindNames

theorem insertSorted_ne_nil (s : String) (texts : List String) : insertSorted s texts ≠ [] := by
  cases texts with
  | nil => exact List.cons_ne_nil _ _
  | cons t rest =>
    unfold insertSorted
    split_ifs <;> exact List.cons_ne_nil _ _

theorem sorted_eq_nil {texts : List String} : sorted texts = [] ↔ texts = [] := by
  cases texts with
  | nil => exact Iff.rfl
  | cons s rest => simpa [sorted] using insertSorted_ne_nil s (sorted rest)

/-- No kind is unknown exactly if all of them are known. -/
theorem isEmpty_unknown {kinds : List String} :
    (sorted (kinds.filter fun kind => !Filter.kindNames.contains kind)).isEmpty = true ↔
      ∀ kind ∈ kinds, kind ∈ Filter.kindNames := by
  rw [List.isEmpty_iff, sorted_eq_nil, List.filter_eq_nil_iff]
  simp

theorem knownKinds_of_known {kinds : List String}
    (known : ∀ kind ∈ kinds, kind ∈ Filter.kindNames) : knownKinds kinds = .ok kinds :=
  if_pos (isEmpty_unknown.mpr known)

/-- A list of kinds passes only as it is, and only if all of them are known. -/
theorem known_of_knownKinds {kinds passed : List String} (h : knownKinds kinds = .ok passed) :
    passed = kinds ∧ ∀ kind ∈ kinds, kind ∈ Filter.kindNames := by
  by_cases known : ∀ kind ∈ kinds, kind ∈ Filter.kindNames
  · exact ⟨Except.ok.inj (h.symm.trans (knownKinds_of_known known)), known⟩
  · have refused : knownKinds kinds = _ := if_neg (mt isEmpty_unknown.mp known)
    cases refused.symm.trans h

theorem known_of_allowedOf {v : Json} {allowed : Option (List String)}
    (h : allowedOf v = .ok allowed) :
    ∀ kinds ∈ allowed, ∀ kind ∈ kinds, kind ∈ Filter.kindNames := by
  cases v with
  | null =>
    cases Except.ok.inj h
    simp
  | arr items =>
    obtain ⟨kinds, hk, rfl⟩ := Checked.map_eq_ok.mp h
    obtain ⟨names, -, hn⟩ := Checked.andThen_eq_ok.mp hk
    obtain ⟨rfl, known⟩ := known_of_knownKinds hn
    rintro _ ⟨⟩
    exact known
  | _ => cases h

theorem validate_of_identityOf {v : Json} {identity : Option Identity}
    (h : identityOf v = .ok identity) :
    ∀ i ∈ identity, Identity.validate "bot_info" v = .ok i := by
  cases v with
  | null =>
    cases Except.ok.inj h
    simp
  | _ =>
    obtain ⟨i, hi, rfl⟩ := Checked.map_eq_ok.mp h
    rintro _ ⟨⟩
    exact hi

variable {fields : List (String × Json)} {s : Settings}

/-- The identity in settings is what the validation of its field gives. -/
theorem identity_of_validate (h : validate fields = .ok s) : ∀ i ∈ s.identity,
    ∃ v, Named.find? "bot_info" fields = some v ∧ Identity.validate "bot_info" v = .ok i := by
  obtain ⟨_, h3, _, -, rfl⟩ := Checked.ap_eq_ok.mp h
  obtain ⟨_, h2, _, -, rfl⟩ := Checked.ap_eq_ok.mp h3
  obtain ⟨_, h1, _, -, rfl⟩ := Checked.ap_eq_ok.mp h2
  obtain ⟨identity, hidentity, rfl⟩ := Checked.map_eq_ok.mp h1
  dsimp only at hidentity
  split at hidentity
  · next v hfind => exact fun i hi => ⟨v, hfind, validate_of_identityOf hidentity i hi⟩
  · cases Except.ok.inj hidentity
    simp

theorem known_of_validate (h : validate fields = .ok s) :
    ∀ kinds ∈ s.allowedKinds, ∀ kind ∈ kinds, kind ∈ Filter.kindNames := by
  obtain ⟨_, h3, logJson, -, rfl⟩ := Checked.ap_eq_ok.mp h
  obtain ⟨_, h2, level, -, rfl⟩ := Checked.ap_eq_ok.mp h3
  obtain ⟨_, h1, allowed, hallowed, rfl⟩ := Checked.ap_eq_ok.mp h2
  obtain ⟨identity, -, rfl⟩ := Checked.map_eq_ok.mp h1
  dsimp only at hallowed
  split at hallowed
  · exact known_of_allowedOf hallowed
  · cases Except.ok.inj hallowed
    simp

theorem proper_of_validate (h : validate fields = .ok s) : s.Proper where
  identity i hi := by
    obtain ⟨v, -, hv⟩ := identity_of_validate h i hi
    exact Identity.proper_of_validate hv
  kinds := known_of_validate h

end Settings
end UpdateDispatch
