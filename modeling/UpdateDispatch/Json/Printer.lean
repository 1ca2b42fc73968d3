import UpdateDispatch.Json.Basic
import UpdateDispatch.Number.Shortest
import UpdateDispatch.Text.Quoted

/-!
# Writing JSON

`Json.spaced` writes a value on one line with a blank after each comma and colon, and
`Json.indented` over several lines. Both keep to ASCII: other characters are escaped by number,
those beyond the basic plane as a pair of surrogates.
-/

namespace UpdateDispatch.Json

/-- An escape by number. -/
def unitEscape (n : Nat) : List Char := '\\' :: 'u' :: Text.hexPadded 4 n

/-- A character of a string: an escape, or the character itself if it is printable ASCII. -/
def charText (c : Char) : List Char :=
  if c = '"' then ['\\', '"']
  else if c = '\\' then ['\\', '\\']
  else if c = '\n' then ['\\', 'n']
  else if c = '\r' then ['\\', 'r']
  else if c = '\t' then ['\\', 't']
  else if c = '\x08' then ['\\', 'b']
  else if c = '\x0c' then ['\\', 'f']
  else if 0x20 ≤ c.toNat ∧ c.toNat < 0x7f then [c]
  else if c.toNat < 0x10000 then unitEscape c.toNat
  else
    unitEscape (0xD800 + (c.toNat - 0x10000) / 0x400) ++
      unitEscape (0xDC00 + (c.toNat - 0x10000) % 0x400)

/-- A string in quotes. -/
def stringText (s : String) : String :=
  String.ofList ('"' :: (s.toList.flatMap charText ++ ['"']))

/-- A double; the values that are not numbers have names. -/
def floatText (x : Double) : String :=
  match x with
  | .undefined => "NaN"
  | .infinite negative => if negative then "-Infinity" else "Infinity"
  | x => x.text

mutual

/-- A value on one line. -/
def spaced : Json → String
  | .null => "null"
  | .bool b => if b then "true" else "false"
  | .int n => toString n
  | .float x => floatText x
  | .str s => stringText s
  | .arr items => "[" ++ spacedItems items ++ "]"
  | .obj fields => "\x7b" ++ spacedFields fields ++ "\x7d"

/-- Items on one line. -/
def spacedItems : List Json → String
  | [] => ""
  | [v] => spaced v
  | v :: rest => spaced v ++ ", " ++ spacedItems rest

/-- Fields on one line. -/
def spacedFields : List (String × Json) → String
  | [] => ""
  | [(k, v)] => stringText k ++ ": " ++ spaced v
  | (k, v) :: rest => stringText k ++ ": " ++ spaced v ++ ", " ++ spacedFields rest

end

/-- A line break and the blanks in front of the next line. -/
def newline (depth : Nat) : String := String.ofList ('\n' :: List.replicate (2 * depth) ' ')

mutual

/-- A value over several lines, at a depth of indentation. -/
def indentedAt (depth : Nat) : Json → String
  | .arr [] => "[]"
  | .arr items =>
    "[" ++ newline (depth + 1) ++ indentedItems (depth + 1) items ++ newline depth ++ "]"
  | .obj [] => "\x7b\x7d"
  | .obj fields =>
    "\x7b" ++ newline (depth + 1) ++ indentedFields (depth + 1) fields ++ newline depth ++ "\x7d"
  | v => spaced v

/-- Items on lines of their own. -/
def indentedItems (depth : Nat) : List Json → String
  | [] => ""
  | [v] => indentedAt depth v
  | v :: rest => indentedAt depth v ++ "," ++ newline depth ++ indentedItems depth rest

/-- Fields on lines of their own. -/
def indentedFields (depth : Nat) : List (String × Json) → String
  | [] => ""
  | [(k, v)] => stringText k ++ ": " ++ indentedAt depth v
  | (k, v) :: rest =>
    stringText k ++ ": " ++ indentedAt depth v ++ "," ++ newline depth ++
      indentedFields depth rest

end

/-- A value over several lines. -/
def indented (v : Json) : String := indentedAt 0 v

end UpdateDispatch.Json
