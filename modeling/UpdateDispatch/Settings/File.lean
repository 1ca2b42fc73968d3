import UpdateDispatch.Json.Printer
import UpdateDispatch.Settings.Environment
import UpdateDispatch.Settings.Keys

/-!
# Settings in files

A file holds one JSON object with the settings, its names in the one-word form. `Settings.loaded`
takes settings from a file as a whole or not at all: when the file cannot be read or any field is
refused, there is a warning and the settings come from the environment alone. `Settings.saved` is
the text that is written to a file.
-/

namespace UpdateDispatch.Settings

/-- The fields that a file holds: those of its object, with names in the form of settings. -/
def fileFields? (content : ByteArray) : Option (List (String × Json)) := do
  let text ← String.fromUTF8? content
  match Json.read text with
  | .ok value =>
    match value.snakeKeys with
    | .obj fields => some fields
    | _ => none
  | .error _ => none

/-- The settings of a file, if all of it is accepted. -/
def ofFile? (env : Environment) (content : ByteArray) : Option Settings := do
  let fields ← fileFields? content
  match ofFields env fields with
  | .ok s => some s
  | .error _ => none

/-- What loading comes to: the number of warnings, and the settings or a fault. -/
structure Loaded where
  warnings : Nat
  outcome : Except Fault Settings

/-- Loading from a file and an environment. A rejected file is reason for a warning, one that does
not exist is none; in both cases the environment alone counts, and its faults are those of
loading. -/
def loaded (env : Environment) (content : Option ByteArray) : Loaded :=
  match content with
  | none => { warnings := 0, outcome := ofFields env [] }
  | some content =>
    match ofFile? env content with
    | some s => { warnings := 0, outcome := .ok s }
    | none => { warnings := 1, outcome := ofFields env [] }

/-- The settings that come from a file and an environment, and whether there was a warning. -/
def load (env : Environment) (content : Option ByteArray) : Except Fault (Settings × Bool) :=
  let result := loaded env content
  result.outcome.map fun s => (s, result.warnings != 0)

/-- The fields that are not null, at any depth of objects. -/
def presentFields (fields : List (String × Json)) : List (String × Json) :=
  fields.filter fun (_, v) => !v.isNull

/-- The value of settings in a file: names in the one-word form, and no fields that are null. -/
def fileValue (s : Settings) : Json :=
  let identity := s.identity.map fun i => Json.obj (presentFields i.fields)
  (Json.obj (presentFields (Named.set "bot_info" (identity.getD .null) s.fields))).camelKeys

/-- The text of settings in a file. -/
def saved (s : Settings) : String := s.fileValue.indented ++ "\n"

/-- Whether two settings are equal. -/
def same (s t : Settings) : Bool := (Json.obj s.fields).same (.obj t.fields)

/-- Whether the text of settings, loaded without any environment, gives the settings back. -/
def reloads (s : Settings) : Bool :=
  match load [] (some s.saved.toUTF8) with
  | .ok (t, _) => s.same t
  | .error _ => false

end UpdateDispatch.Settings
