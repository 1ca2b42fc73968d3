import UpdateDispatch.Json.Basic
import UpdateDispatch.Text.Case
import UpdateDispatch.Text.Split

/-!
# Names of settings in files

Files spell the names of settings as one word whose parts start with a capital, the settings
themselves spell them in lower case with underscores between the parts. `toSnake` and `toCamel`
convert a name, `Json.snakeKeys` and `Json.camelKeys` all keys of a value at any depth. When two
keys of an object become equal, the later one's value counts.
-/

namespace UpdateDispatch

namespace Settings

/-- The lower-case form of a name, from a place that is not its start: an underscore goes before
each capital. -/
def snakeTail : List Char → List Char
  | [] => []
  | c :: rest => (if Text.isUpper c then ['_'] else []) ++ Text.lowerFrom [] [c] ++ snakeTail rest

/-- The lower-case form of a name. -/
def snakeChars : List Char → List Char
  | [] => []
  | c :: rest => Text.lowerFrom [] [c] ++ snakeTail rest

/-- The one-word form of a name: the first part as it is, the others in title case. -/
def camelChars (name : List Char) : List Char :=
  match Text.pieces '_' name with
  | [] => []
  | head :: tail => head ++ tail.flatMap (Text.titleFrom [])

/-- The lower-case form of a name, with an underscore before each capital but the first letter. -/
def toSnake (name : String) : String := String.ofList (snakeChars name.toList)

/-- The one-word form of a name. -/
def toCamel (name : String) : String := String.ofList (camelChars name.toList)

end Settings

namespace Json

mutual

/-- A value with all keys changed by `f`. -/
def mapKeys (f : String → String) : Json → Json
  | .arr items => .arr (mapKeysItems f items)
  | .obj fields => ofFields (mapKeysFields f fields)
  | v => v

/-- Items with all keys inside changed. -/
def mapKeysItems (f : String → String) : List Json → List Json
  | [] => []
  | v :: rest => mapKeys f v :: mapKeysItems f rest

/-- Fields with all keys changed, here and inside. -/
def mapKeysFields (f : String → String) : List (String × Json) → List (String × Json)
  | [] => []
  | (k, v) :: rest => (f k, mapKeys f v) :: mapKeysFields f rest

end

/-- A value with its keys in the form of the settings. -/
def snakeKeys (v : Json) : Json := mapKeys Settings.toSnake v

/-- A value with its keys in the form of files. -/
def camelKeys (v : Json) : Json := mapKeys Settings.toCamel v

end Json
end UpdateDispatch
