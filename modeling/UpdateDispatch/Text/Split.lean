/-!
# Pieces of texts
-/

namespace UpdateDispatch.Text

/-- The pieces of a text between the places where a separator stands. -/
def pieces (separator : Char) : List Char → List (List Char)
  | [] => [[]]
  | c :: cs =>
    if c = separator then [] :: pieces separator cs
    else
      match pieces separator cs with
      | [] => [[c]]
      | piece :: rest => (c :: piece) :: rest

end UpdateDispatch.Text
