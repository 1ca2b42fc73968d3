import UpdateDispatch.Json.Basic
import UpdateDispatch.Number.Shortest
import UpdateDispatch.Text.Quoted

/-!
# Literals and displayed values

`Json.literal` writes a value as a literal: `None`, `True`, quoted texts, lists in brackets and
objects in braces. `Json.display` is the same but shows a text without quotes.
-/

namespace UpdateDispatch.Json

mutual

/-- The literal of a value. -/
def literal : Json → String
  | .null => "None"
  | .bool b => if b then "True" else "False"
  | .int n => toString n
  | .float x => x.text
  | .str s => Text.quoted s
  | .arr items => "[" ++ literalItems items ++ "]"
  | .obj fields => "\x7b" ++ literalFields fields ++ "\x7d"

/-- The literals of the items, separated by commas. -/
def literalItems : List Json → String
  | [] => ""
  | [v] => literal v
  | v :: rest => literal v ++ ", " ++ literalItems rest

/-- The literals of the fields, separated by commas. -/
def literalFields : List (String × Json) → String
  | [] => ""
  | [(k, v)] => Text.quoted k ++ ": " ++ literal v
  | (k, v) :: rest => Text.quoted k ++ ": " ++ literal v ++ ", " ++ literalFields rest

end

/-- The text of a value in a message: a text as it is, any other value as its literal. -/
def display : Json → String
  | .str s => s
  | v => v.literal

end UpdateDispatch.Json
