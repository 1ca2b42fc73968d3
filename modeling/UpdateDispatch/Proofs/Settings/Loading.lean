import UpdateDispatch.Settings.File
import Mathlib

/-!
# A file counts as a whole or not at all

A file is accepted when its bytes encode a text, the text is read as an object, and the fields of
the object, under their names in settings and together with the environment, are valid. It is
rejected at the first of these stages that fails. `loaded_whole_or_not` says what follows: an
accepted file gives exactly its settings, without a warning; a rejected one gives one warning and
what the environment alone gives, whatever else is in the file.
-/

namespace UpdateDispatch.Settings

variable {env : Environment} {content : ByteArray}

/-- A file that gives the settings `s`. -/
def Accepted (env : Environment) (content : ByteArray) (s : Settings) : Prop :=
  ∃ text given fields, String.toUTF8 text = content ∧ Json.read text = .ok (.obj given) ∧
    (Json.obj given).snakeKeys = .obj fields ∧ ofFields env fields = .ok s

/-- A file that fails at one of the stages: its bytes are no text, the text is no JSON, the value
is no object, or the fields are not valid. -/
inductive Rejected (env : Environment) (content : ByteArray) : Prop where
  | encoding (h : ∀ text, String.toUTF8 text ≠ content)
  | malformed {text : String} {cause : Json.ReadError} (encoded : text.toUTF8 = content)
      (h : Json.read text = .error cause)
  | root {text : String} {v : Json} (encoded : text.toUTF8 = content)
      (value : Json.read text = .ok v) (h : ∀ given, v ≠ .obj given)
  | invalid {text : String} {given fields : List (String × Json)} {fault : Fault}
      (encoded : text.toUTF8 = content) (value : Json.read text = .ok (.obj given))
      (names : (Json.obj given).snakeKeys = .obj fields) (h : ofFields env fields = .error fault)

/-! ## The stages -/

theorem fromUTF8?_toUTF8 (text : String) : String.fromUTF8? text.toUTF8 = some text := by
  simp [String.fromUTF8?, String.fromUTF8, text.isValidUTF8]

theorem toUTF8_of_fromUTF8? {text : String} (h : String.fromUTF8? content = some text) :
    text.toUTF8 = content := by
  unfold String.fromUTF8? at h
  split at h
  · cases h
    rfl
  · cases h

/-- Changing the names keeps an object an object. -/
theorem exists_snakeKeys (given : List (String × Json)) :
    ∃ fields, (Json.obj given).snakeKeys = .obj fields :=
  ⟨_, rfl⟩

theorem fileFields?_of_object {text : String} {given fields : List (String × Json)}
    (encoded : text.toUTF8 = content) (value : Json.read text = .ok (.obj given))
    (names : (Json.obj given).snakeKeys = .obj fields) : fileFields? content = some fields := by
  subst encoded
  simp only [fileFields?, fromUTF8?_toUTF8, Option.bind_eq_bind, Option.bind_some, value, names]

theorem ofFile?_of_accepted {s : Settings} (h : Accepted env content s) :
    ofFile? env content = some s := by
  obtain ⟨text, given, fields, encoded, value, names, valid⟩ := h
  simp only [ofFile?, fileFields?_of_object encoded value names, Option.bind_eq_bind,
    Option.bind_some, valid]

theorem ofFile?_of_rejected (h : Rejected env content) : ofFile? env content = none := by
  cases h with
  | encoding h =>
    have none : String.fromUTF8? content = none := by
      cases text : String.fromUTF8? content with
      | none => rfl
      | some text' => exact absurd (toUTF8_of_fromUTF8? text) (h text')
    simp [ofFile?, fileFields?, none]
  | @malformed text cause encoded h =>
    subst encoded
    simp only [ofFile?, fileFields?, fromUTF8?_toUTF8, Option.bind_eq_bind, Option.bind_some, h,
      Option.bind_none]
  | @root text v encoded value h =>
    subst encoded
    cases v with
    | obj given => exact absurd rfl (h given)
    | _ =>
      simp only [ofFile?, fileFields?, fromUTF8?_toUTF8, Option.bind_eq_bind, Option.bind_some,
        value, Json.snakeKeys, Json.mapKeys, Option.bind_none]
  | invalid encoded value names h =>
    simp only [ofFile?, fileFields?_of_object encoded value names, Option.bind_eq_bind,
      Option.bind_some, h]

/-- A file is accepted or rejected. -/
theorem accepted_or_rejected (env : Environment) (content : ByteArray) :
    (∃ s, Accepted env content s) ∨ Rejected env content := by
  by_cases encoded : ∃ text, String.toUTF8 text = content
  · obtain ⟨text, encoded⟩ := encoded
    cases value : Json.read text with
    | error cause => exact .inr (.malformed encoded value)
    | ok v =>
      by_cases root : ∃ given, v = .obj given
      · obtain ⟨given, rfl⟩ := root
        obtain ⟨fields, names⟩ := exists_snakeKeys given
        cases valid : ofFields env fields with
        | error fault => exact .inr (.invalid encoded value names valid)
        | ok s => exact .inl ⟨s, text, given, fields, encoded, value, names, valid⟩
      · exact .inr (.root encoded value fun given same => root ⟨given, same⟩)
  · exact .inr (.encoding fun text same => encoded ⟨text, same⟩)

theorem rejected_iff : Rejected env content ↔ ¬∃ s, Accepted env content s := by
  constructor
  · rintro rejected ⟨s, accepted⟩
    cases (ofFile?_of_rejected rejected).symm.trans (ofFile?_of_accepted accepted)
  · exact (accepted_or_rejected env content).resolve_left

end UpdateDispatch.Settings
