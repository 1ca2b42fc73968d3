import UpdateDispatch.Filter.Query

/-!
# The merged tree of paths and its test

The paths of a list of queries are merged into one tree with a level for the update kinds, one for
the fields and one for the tags. `Tree.test` decides whether an update has what the tree asks for:
a leaf asks that a field is not null, an inner node that its field counts as true and that one of
the nodes below it accepts.
-/

namespace UpdateDispatch.Filter

/-- Update kinds with fields with tags, in order of first appearance. -/
abbrev Tree := List (String × List (String × List String))

/-- Puts what a name holds, changed by `f`, in its place in a table; a new name comes last. -/
def upsert {α : Type} (name : String) (empty : α) (f : α → α) :
    List (String × α) → List (String × α)
  | [] => [(name, f empty)]
  | (key, value) :: rest =>
    if key = name then (key, f value) :: rest else (key, value) :: upsert name empty f rest

/-- The tree with one path added. -/
def Tree.insert (tree : Tree) (path : Parts) : Tree :=
  let l := path.levels
  upsert (l.kind.getD "") [] (fun fields =>
    match l.field with
    | none => fields
    | some field =>
      upsert field [] (fun tags =>
        match l.tag with
        | none => tags
        | some tag => if tags.contains tag then tags else tags ++ [tag]) fields) tree

/-- The tree of a list of paths. -/
def Tree.ofPaths (paths : List Parts) : Tree := paths.foldl Tree.insert []

/-- Whether one item has a tag: `me` is the bot itself, any other tag a field that counts as true
or the type of the item. -/
def hasTag (me : Json) (tag : String) (item : Json) : Bool :=
  if tag = "me" then (item.field "id").same me
  else (item.field tag).truthy || (item.field "type").same (.str tag)

/-- Whether some item of a value that is not null has a tag. -/
def anyHasTag (me : Json) (tag : String) (value : Json) : Bool :=
  match value with
  | .arr items => items.any fun item => !item.isNull && hasTag me tag item
  | value => !value.isNull && hasTag me tag value

/-- Whether a field asks for what its value has. -/
def testField (me : Json) (owner : Json) (node : String × List String) : Bool :=
  let value := owner.field node.1
  if node.2.isEmpty then !value.isNull
  else value.truthy && node.2.any (anyHasTag me · value)

/-- Whether an update kind asks for what its value has. -/
def testKind (me : Json) (update : Json) (node : String × List (String × List String)) : Bool :=
  let value := update.field node.1
  if node.2.isEmpty then !value.isNull
  else value.truthy && node.2.any (testField me value)

/-- Whether an update satisfies a tree for a bot with the given number. -/
def Tree.test (tree : Tree) (update me : Json) : Bool := tree.any (testKind me update)

end UpdateDispatch.Filter
