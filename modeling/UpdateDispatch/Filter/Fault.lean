import UpdateDispatch.Filter.Schema

/-!
# What is wrong with a filter query

A `PathFault` is what one expanded query can be refused for, a `QueryFault` what a whole query can
be refused for, each with its text.
-/

namespace UpdateDispatch.Filter

/-- Why one expanded query is no path of the schema. `path` is its text. -/
inductive PathFault where
  | empty
  | unknownKind (kind path : String)
  | unknownField (kind field path : String)
  | unknownTag (kind field tag path : String)
  | tooDeep (rest : List String)
  deriving DecidableEq, Repr

/-- Why a query is refused. -/
inductive QueryFault where
  | noExpansion (tokens : List String)
  | empty
  | path (fault : PathFault)
  | several (tokens : List String) (faults : List PathFault)
  | noPath
  deriving DecidableEq, Repr

/-- Texts joined by a separator. -/
def joined (separator : String) : List String → String
  | [] => ""
  | [s] => s
  | s :: rest => s ++ separator ++ joined separator rest

/-- Names in single quotes, separated by commas. -/
def quotedNames (names : List String) : String :=
  joined ", " (names.map fun name => "'" ++ name ++ "'")

/-- The text of a fault of one path. -/
def PathFault.message : PathFault → String
  | .empty => "Empty filter query given"
  | .unknownKind kind path =>
    s!"Invalid L1 filter '{kind}' given in '{path}'. Permitted values are: " ++
      quotedNames kindNames ++ "."
  | .unknownField kind field path =>
    s!"Invalid L2 filter '{field}' given in '{path}'. Permitted values are: " ++
      quotedNames ((fieldsOf kind).map Prod.fst) ++ "."
  | .unknownTag kind field tag path =>
    let hint := if (tagsOf kind field).isEmpty
      then s!"No further filtering is possible after '{kind}:{field}'."
      else "Permitted values are: " ++ quotedNames (tagsOf kind field) ++ "."
    s!"Invalid L3 filter '{tag}' given in '{path}'. {hint}"
  | .tooDeep rest =>
    "Cannot filter further than three levels, ':" ++ joined ":" rest ++ "' is invalid!"

/-- The text of a fault of a query. -/
def QueryFault.message : QueryFault → String
  | .noExpansion tokens =>
    "Shortcuts in '" ++ joined ":" tokens ++ "' do not expand to any valid filter query"
  | .empty => "Empty filter query given"
  | .path fault => fault.message
  | .several tokens faults =>
    "Invalid filter query '" ++ joined ":" tokens ++ "'. There are " ++ toString faults.length ++
      " errors after expanding the contained shortcuts: " ++
      joined "; " (faults.map PathFault.message)
  | .noPath => "Cannot create filter function for empty query"

end UpdateDispatch.Filter
