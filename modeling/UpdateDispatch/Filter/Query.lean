import UpdateDispatch.Fault
import UpdateDispatch.Text.Split

/-!
# Filter queries and the paths they stand for

A query is split at its colons into tokens. `preprocess` replaces shortcut tokens by the names
they stand for, dropping combinations that do not fit the schema as far as it can tell, and `check`
refuses what is no path. `expand` does both and returns the paths as texts.

A part is a token or nothing: an absent part stands for a level that the query leaves open.
-/

namespace UpdateDispatch.Filter

/-- The parts of a query, level by level. -/
abbrev Parts := List (Option String)

/-- The three levels of a query, and the tokens beyond them. -/
structure Levels where
  kind : Option String
  field : Option String
  tag : Option String
  rest : List String
  deriving DecidableEq, Repr

/-- The levels of a list of parts. -/
def Parts.levels (parts : Parts) : Levels :=
  { kind := parts.head?.join
    field := parts[1]?.join
    tag := parts[2]?.join
    rest := (parts.drop 3).filterMap id }

/-- The tokens of a query. -/
def tokens (query : String) : List String := (Text.pieces ':' query.toList).map String.ofList

/-- Whether a part is absent or empty. -/
def blank (part : Option String) : Bool := part.getD "" == ""

/-- The parts without the absent ones at the end. -/
def Parts.trim (parts : Parts) : Parts := (parts.reverse.dropWhile Option.isNone).reverse

/-- The text of a list of parts. -/
def Parts.text (parts : Parts) : String := joined ":" (parts.trim.filterMap id)

/-- The tokens of a query all of whose parts are present; the text of a fault needs them. -/
def Parts.tokens? (parts : Parts) : Except Fault (List String) :=
  match parts.mapM id with
  | some ts => .ok ts
  | none =>
    let i := parts.findIdx Option.isNone
    .error (.mismatch s!"sequence item {i}: expected str instance, NoneType found")

/-- The parts with the update kinds in place of a shortcut for them. Kinds that cannot have the
field are dropped, unless the field is itself left open or a shortcut. -/
def expandKind (parts : Parts) : List Parts :=
  let l := parts.levels
  match l.kind.bind (Named.find? · kindShortcuts) with
  | none => [parts]
  | some kinds =>
    if blank l.kind && blank l.field && blank l.tag then [parts]
    else
      let candidate (kind : String) : Parts := some kind :: l.field :: l.tag :: l.rest.map some
      let keepAll := match l.field with
        | none => true
        | some field =>
          (Named.find? field fieldShortcuts).isSome && !(blank l.field && blank l.tag)
      let fits (kind : String) : Bool :=
        keepAll || (l.field.map (hasField kind)).getD true
      (kinds.filter fits).map candidate

/-- The parts with the fields in place of a shortcut for them. Fields that cannot have the tag
are dropped. -/
def expandField (parts : Parts) : List Parts :=
  let l := parts.levels
  match l.field.bind (Named.find? · fieldShortcuts) with
  | none => [parts]
  | some fields =>
    if blank l.field && blank l.tag then [parts]
    else
      let candidate (field : String) : Parts := l.kind :: some field :: l.tag :: l.rest.map some
      let fits (field : String) : Bool := match l.tag with
        | none => true
        | some tag => (tagsOf (l.kind.getD "") field).contains tag
      (fields.filter fits).map candidate

/-- The combinations that the shortcuts of a query stand for. -/
def preprocess (parts : Parts) : Except Fault (List Parts) :=
  match (expandKind parts).flatMap expandField with
  | [] => do
    let tokens ← parts.tokens?
    .error (.query (.noExpansion tokens))
  | expanded => .ok (expanded.map Parts.trim)

/-- What is wrong with an expanded query, if anything is. -/
def pathFault? (parts : Parts) : Option PathFault :=
  let l := parts.levels
  match l.kind with
  | none => some .empty
  | some kind =>
  match Named.find? kind schema with
  | none => some (.unknownKind kind parts.text)
  | some fields =>
  match l.field with
  | none => none
  | some field =>
  match Named.find? field fields with
  | none => some (.unknownField kind field parts.text)
  | some tags =>
  match l.tag with
  | none => none
  | some tag =>
    if !tags.contains tag then some (.unknownTag kind field tag parts.text)
    else if l.rest.isEmpty then none
    else some (.tooDeep l.rest)

/-- The expanded queries, if all of them are paths of the schema. -/
def check (query : Parts) (expanded : List Parts) : Except Fault (List Parts) :=
  if expanded.isEmpty then .error (.query .empty)
  else
    match expanded.filterMap pathFault? with
    | [] => .ok expanded
    | [fault] => .error (.query (.path fault))
    | faults => do
      let tokens ← query.tokens?
      .error (.query (.several tokens faults))

/-- The paths that one split query stands for. -/
def paths (parts : Parts) : Except Fault (List Parts) := do
  check parts (← preprocess parts)

/-- The parts of a query given as a text. -/
def parts (query : String) : Parts := (tokens query).map some

/-- The paths that a list of queries stands for, as texts. -/
def expand (queries : List String) : Except Fault (List String) := do
  let found ← (queries.map parts).mapM paths
  .ok (found.flatten.map Parts.text)

/-- The tokens of each query of a list. -/
def parse (queries : List String) : List (List String) := queries.map tokens

/-- The values that a query argument lists: a text is one query, a list many. -/
def listed (argument : Json) : Except Fault (List Json) :=
  match argument with
  | .str s => .ok [.str s]
  | .arr vs => .ok vs
  | .obj fields => .ok (fields.map fun (key, _) => .str key)
  | v => .error (.mismatch s!"'{v.typeName}' object is not iterable")

/-- The text of a query; only texts can be split. -/
def queryText (v : Json) : Except Fault String :=
  match v with
  | .str s => .ok s
  | v => .error (.noAttribute v.typeName "split")

/-- The queries of an argument. -/
def queries (argument : Json) : Except Fault (List String) := do
  (← listed argument).mapM queryText

end UpdateDispatch.Filter
