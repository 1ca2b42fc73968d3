import UpdateDispatch.Json.Reader
import UpdateDispatch.Settings.Basic

/-!
# Settings from the environment

Variables whose names start with `CHAINBOT_`, in any case, give fields of the settings. The
identity and the list of update kinds are written as JSON; a variable that is no JSON is taken as
the text itself. A variable for a part of such a field, with two underscores between the names of
the field and of the part, goes into the field and wins over the JSON.

`Json.mergeOver` lays the fields of a source over those of another one, objects in them part by
part: this is how a file goes over the environment.
-/

namespace UpdateDispatch

namespace Json

mutual

/-- A value over another one: two objects are merged, else the upper value counts. -/
def mergeOver (lower : Json) : Json → Json
  | .obj upper =>
    match lower with
    | .obj fields => .obj (mergeFields fields upper)
    | _ => .obj upper
  | upper => upper

/-- Fields over other fields. -/
def mergeFields (lower : List (String × Json)) : List (String × Json) → List (String × Json)
  | [] => lower
  | (k, v) :: rest =>
    let value := match Named.find? k lower with
      | some old => mergeOver old v
      | none => v
    mergeFields (Named.set k value lower) rest

end

/-- A value set in an object at the end of a path of names. Where the path leads through a value
that is no object, nothing changes. -/
def setPath (path : List String) (value : Json) (fields : List (String × Json)) :
    List (String × Json) :=
  match path with
  | [] => fields
  | [name] => Named.set name value fields
  | name :: more =>
    match (Named.find? name fields).getD (.obj []) with
    | .obj inner => Named.set name (.obj (setPath more value inner)) fields
    | _ => fields

end Json

namespace Settings

/-- The variables of an environment, in order. -/
abbrev Environment : Type := List (String × String)

/-- How the names of variables start, in lower case. -/
def variableStart : String := "chainbot_"

/-- The variables with their names in lower case; of equal names the last one counts. -/
def Environment.lowered (env : Environment) : List (String × Json) :=
  (env.foldl (fun acc (k, v) => Named.set (Text.lower k) (.str v) acc) [])

/-- The text after a start. -/
def afterStart? (start name : List Char) : Option (List Char) := Json.afterWord? start name

/-- The names in the rest of the name of a variable, between pairs of underscores. -/
def pathNames : List Char → List (List Char)
  | [] => [[]]
  | '_' :: '_' :: rest => [] :: pathNames rest
  | c :: rest =>
    match pathNames rest with
    | [] => [[c]]
    | name :: names => (c :: name) :: names

/-- The parts of a field that variables of their own give. -/
def partsOf (name : String) (vars : List (String × Json)) : List (String × Json) :=
  vars.foldl (fun acc (k, v) =>
    match afterStart? (variableStart ++ name ++ "__").toList k.toList with
    | some rest => Json.setPath ((pathNames rest).map String.ofList) v acc
    | none => acc) []

/-- The value of a JSON variable: the text itself if it cannot be read. -/
def variableValue (v : Json) : Json :=
  match v with
  | .str s =>
    match Json.read s with
    | .ok value => value
    | .error _ => v
  | v => v

/-- A field that is written as JSON, with the parts that have variables of their own. -/
def recordField (name : String) (vars : List (String × Json)) : Json :=
  let parts := partsOf name vars
  match Named.find? (variableStart ++ name) vars with
  | none => if parts.isEmpty then .null else .obj parts
  | some v =>
    match variableValue v with
    | .obj fields => .obj (Json.mergeFields fields parts)
    | value => value

/-- The fields of settings that an environment gives. -/
def Environment.fields (env : Environment) : List (String × Json) :=
  let vars := env.lowered
  let plain (name : String) : Json := (Named.find? (variableStart ++ name) vars).getD .null
  [("bot_info", recordField "bot_info" vars),
    ("allowed_updates", recordField "allowed_updates" vars),
    ("log_level", plain "log_level"), ("log_json", plain "log_json")].filter
      fun (_, v) => !v.isNull

/-- The settings with the given fields; what they leave open comes from an environment. -/
def ofFields (env : Environment) (given : List (String × Json)) : Except Fault Settings :=
  match validate (Json.mergeFields env.fields given) with
  | .ok s => .ok s
  | .error faults => .error (.invalid faults)

end Settings
end UpdateDispatch
