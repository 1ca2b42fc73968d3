import UpdateDispatch.Text.Class
import UpdateDispatch.Text.Table.Case

/-!
# Upper, lower and title case

Case mappings of characters and texts. A character may map to several characters, and the lower
case of a capital sigma depends on its neighbours: at the end of a word it is the final form.
In title case a character that follows one with case is lowered, any other is raised.
-/

namespace UpdateDispatch.Text

/-- The image of a code point under a mapping given by runs and by exceptions. -/
def image (runs : Array (Nat × Nat × Nat × Int)) (wide : Array (Nat × List Nat)) (c : Char) :
    List Char :=
  match wide.find? fun (code, _) => code == c.toNat with
  | some (_, codes) => codes.map Char.ofNat
  | none =>
    match runs.find? fun (first, last, step, _) =>
        first ≤ c.toNat && c.toNat ≤ last && (c.toNat - first) % step == 0 with
    | some (_, _, _, shift) => [Char.ofNat ((c.toNat : Int) + shift).toNat]
    | none => [c]

/-- The lower case of a character that stands alone. -/
def lowerChar (c : Char) : List Char :=
  if c.toNat < 128 then [c.toLower] else image Table.lowerRuns Table.lowerWide c

/-- The upper case of a character. -/
def upperChar (c : Char) : List Char :=
  if c.toNat < 128 then [c.toUpper] else image Table.upperMapRuns Table.upperWide c

/-- The title case of a character. -/
def titleChar (c : Char) : List Char :=
  if c.toNat < 128 then [c.toUpper] else image Table.titleRuns Table.titleWide c

/-- Whether a character is upper case. -/
def isUpper (c : Char) : Bool :=
  if c.toNat < 128 then c.isUpper else inRuns Table.upperRuns c.toNat

/-- Whether a character is upper, lower or title case. -/
def isCased (c : Char) : Bool :=
  if c.toNat < 128 then c.isAlpha else inRuns Table.casedRuns c.toNat

/-- Whether the search for a neighbour with case passes over a character. -/
def isIgnorable (c : Char) : Bool :=
  if c.toNat < 128 then c ∈ ['\'', '.', ':', '^', '\x60'] else inRuns Table.ignorableRuns c.toNat

/-- Whether the first character that counts has case. -/
def startsCased (cs : List Char) : Bool :=
  match cs.dropWhile isIgnorable with
  | c :: _ => isCased c
  | [] => false

/-- The lower case of a character between the reversed text before it and the text after it. -/
def lowerBetween (before : List Char) (c : Char) (after : List Char) : List Char :=
  if c == 'Σ' then if startsCased before && !startsCased after then ['ς'] else ['σ']
  else lowerChar c

/-- The lower case of a text, after the reversed text before it. -/
def lowerFrom (before : List Char) : List Char → List Char
  | [] => []
  | c :: after => lowerBetween before c after ++ lowerFrom (c :: before) after

/-- The lower case of a text. -/
def lower (s : String) : String := String.ofList (lowerFrom [] s.toList)

/-- The upper case of a text. -/
def upper (s : String) : String := String.ofList (s.toList.flatMap upperChar)

/-- The title case of a text, after the reversed text before it. -/
def titleFrom (before : List Char) : List Char → List Char
  | [] => []
  | c :: after =>
    (match before with
      | b :: _ => if isCased b then lowerBetween before c after else titleChar c
      | [] => titleChar c) ++ titleFrom (c :: before) after

/-- The title case of a text. -/
def title (s : String) : String := String.ofList (titleFrom [] s.toList)

end UpdateDispatch.Text
