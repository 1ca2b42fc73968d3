import UpdateDispatch.Context.Basic

/-!
# Entities of a message

`Context.entities` lists the entities of the message an update is about, each with the piece of
text that it covers. Offsets and lengths count code points.
-/

namespace UpdateDispatch.Context

/-- An entity with the piece of text that it covers. -/
def withPiece (text entity : Json) : Except Fault Json := do
  match entity with
  | .obj fields =>
    let start ← entity.require "offset"
    let length ← entity.require "length"
    let piece ← text.slice (← start.bound) (← start.boundSum length)
    .ok (.obj (Named.set "text" piece fields))
  | v => .error (.mismatch s!"'{v.typeName}' object is not a mapping")

/-- The entities whose type is one of the wanted ones. -/
def ofTypes (wanted entities : List Json) : Except Fault (List Json) :=
  entities.filterM fun entity => do
    let kind ← (← entity.get "type").asKey
    .ok (kind.isIn wanted)

/-- The entities of a message, of all types or of the wanted ones. -/
def entities (c : Context) (types : Option Json) : Except Fault (List Json) := do
  let msg ← c.msg
  if msg.isNull then .ok []
  else
    let text ← textOf msg
    if text.isNull then .ok []
    else
      let own ← msg.get "entities"
      let ofCaption ← msg.get "caption_entities"
      let all := Json.firstPresent [own, ofCaption]
      if all.isNull then .ok []
      else
        let chosen ← match types with
          | none | some .null => all.items
          | some wanted => do
            let wanted ← wanted.listed.mapM Json.asKey
            ofTypes wanted (← all.items)
        chosen.mapM (withPiece text)

end UpdateDispatch.Context
