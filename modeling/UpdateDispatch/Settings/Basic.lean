import UpdateDispatch.Settings.Rule
import UpdateDispatch.Identity
import UpdateDispatch.Text.Case

/-!
# Settings

The settings of a bot: its identity, the update kinds that it asks for, and how much it logs.
`Settings.validate` makes settings from fields that come from outside. Fields that settings do not
have are left out, missing ones have their defaults, and the faults of all fields are reported in
the order of the fields.
-/

namespace UpdateDispatch

/-- How important a line of the log is. -/
inductive LogLevel where
  | trace
  | debug
  | info
  | success
  | warning
  | error
  | critical
  deriving DecidableEq, Repr

namespace LogLevel

/-- All levels, the least important first. -/
def levels : List LogLevel := [trace, debug, info, success, warning, error, critical]

/-- The name of a level. -/
def name : LogLevel → String
  | trace => "TRACE"
  | debug => "DEBUG"
  | info => "INFO"
  | success => "SUCCESS"
  | warning => "WARNING"
  | error => "ERROR"
  | critical => "CRITICAL"

/-- The level of a name, in capitals. -/
def named? (name : String) : Option LogLevel := levels.find? fun level => level.name == name

end LogLevel

/-- The identity that a value describes. -/
def Identity.validate (place : String) (v : Json) : Checked Identity :=
  match v with
  | .obj fields =>
    let required (name : String) (rule : Json → Except FieldCause Json) : Checked Json :=
      Settings.checkedAt (Settings.within place name) <|
        match Named.find? name fields with
        | some v => rule v
        | none => .error .missing
    let optional (name : String) (rule : Json → Except FieldCause Json) (default : Json) :
        Checked Json :=
      match Named.find? name fields with
      | some v => Settings.checkedAt (Settings.within place name) (rule v)
      | none => .ok default
    (required "id" Settings.integer).map Identity.mk
      |>.ap (optional "is_bot" Settings.flag (.bool true))
      |>.ap (optional "first_name" Settings.text (.str ""))
      |>.ap (optional "username" Settings.text (.str ""))
      |>.ap (optional "last_name" Settings.optionalText .null)
      |>.ap (optional "can_join_groups" Settings.flag (.bool false))
      |>.ap (optional "can_read_all_group_messages" Settings.flag (.bool false))
      |>.ap (optional "supports_inline_queries" Settings.flag (.bool false))
  | _ => .error [{ place, cause := .noRecord }]

/-- The settings of a bot. -/
structure Settings where
  identity : Option Identity := none
  allowedKinds : Option (List String) := none
  logLevel : LogLevel := .info
  logJson : Bool := false
  deriving Repr, Inhabited

namespace Settings

/-- The identity in the settings, null for none. -/
def identityOf (v : Json) : Checked (Option Identity) :=
  match v with
  | .null => .ok none
  | v => (Identity.validate "bot_info" v).map some

/-- A name in the list of update kinds. -/
def kindName (index : Nat) (v : Json) : Checked String :=
  match v with
  | .str s => .ok s
  | _ => .error [{ place := within "allowed_updates" (toString index), cause := .noText }]

/-- A text among sorted texts, once. -/
def insertSorted (s : String) : List String → List String
  | [] => [s]
  | t :: rest => if s = t then t :: rest else if s < t then s :: t :: rest
    else t :: insertSorted s rest

/-- Texts in order, each of them once. -/
def sorted (texts : List String) : List String := texts.foldr insertSorted []

/-- A list of known update kinds. -/
def knownKinds (kinds : List String) : Checked (List String) :=
  let unknown := sorted (kinds.filter fun kind => !Filter.kindNames.contains kind)
  if unknown.isEmpty then .ok kinds
  else .error [{ place := "allowed_updates", cause := .unknownKinds unknown }]

/-- The update kinds to ask for, null for no choice. -/
def allowedOf (v : Json) : Checked (Option (List String)) :=
  match v with
  | .null => .ok none
  | .arr items =>
    ((Checked.all (items.mapIdx kindName)).andThen knownKinds).map some
  | _ => .error [{ place := "allowed_updates", cause := .noList }]

/-- The log level, in any case. -/
def levelOf (v : Json) : Checked LogLevel :=
  checkedAt "log_level" <|
    match v with
    | .str s =>
      match LogLevel.named? (Text.upper s) with
      | some level => .ok level
      | none => .error .unknownLevel
    | _ => .error .unknownLevel

/-- Whether the log is written as JSON. -/
def logJsonOf (v : Json) : Checked Bool := checkedAt "log_json" (truth v)

/-- The settings with the given fields. -/
def validate (fields : List (String × Json)) : Checked Settings :=
  let one {α : Type} (name : String) (rule : Json → Checked α) (default : α) : Checked α :=
    match Named.find? name fields with
    | some v => rule v
    | none => .ok default
  (one "bot_info" identityOf none).map Settings.mk
    |>.ap (one "allowed_updates" allowedOf none)
    |>.ap (one "log_level" levelOf .info)
    |>.ap (one "log_json" logJsonOf false)

/-- The fields of settings, in order. -/
def fields (s : Settings) : List (String × Json) :=
  [("bot_info", (s.identity.map fun i => Json.obj i.fields).getD .null),
    ("allowed_updates", (s.allowedKinds.map fun kinds => Json.arr (kinds.map .str)).getD .null),
    ("log_level", .str s.logLevel.name), ("log_json", .bool s.logJson)]

end Settings
end UpdateDispatch
