import UpdateDispatch.Context.Basic

/-!
# Changes of reactions

`Context.reactions` says how the reactions on a message changed: which emoji and custom emoji
there are now, and which of them were added, kept and removed. `pairOff` compares two lists, each
item of the old one being paired with at most one equal item of the new one.
-/

namespace UpdateDispatch

/-- The reactions of one family, after and before a change. -/
structure FamilyChange where
  now : List Json
  added : List Json
  kept : List Json
  removed : List Json
  deriving Repr

/-- How the reactions on a message changed. -/
structure ReactionChange where
  emoji : FamilyChange
  custom : FamilyChange
  paid : Bool
  paidAdded : Bool
  deriving Repr

/-- The list without the first item that equals the given one. -/
def eraseFirst (v : Json) : List Json → List Json
  | [] => []
  | w :: rest => if w.same v then rest else w :: eraseFirst v rest

/-- Pairs the removed items with the added ones: what is still added, what is kept, and what is
still removed. -/
def pairOff (added : List Json) : List Json → List Json × List Json × List Json
  | [] => (added, [], [])
  | v :: rest =>
    if added.any (·.same v) then
      let (a, kept, r) := pairOff (eraseFirst v added) rest
      (a, v :: kept, r)
    else
      let (a, kept, r) := pairOff added rest
      (a, kept, v :: r)

/-- The change from the old items of a family to the new ones. -/
def FamilyChange.between (new old : List Json) : FamilyChange :=
  let (added, kept, removed) := pairOff new old
  { now := new, added, kept, removed }

/-- The reactions of one side of a change, by family. -/
structure ReactionSide where
  emoji : List Json := []
  custom : List Json := []
  paid : Bool := false

/-- A side with one more reaction; reactions of other types are passed over. -/
def ReactionSide.add (side : ReactionSide) (r : Json) : Except Fault ReactionSide := do
  let kind ← r.get "type"
  if kind.same (.str "emoji") then
    .ok { side with emoji := side.emoji ++ [← r.require "emoji"] }
  else if kind.same (.str "custom_emoji") then
    .ok { side with custom := side.custom ++ [← r.require "custom_emoji_id"] }
  else if kind.same (.str "paid") then .ok { side with paid := true }
  else .ok side

/-- The side that a field of a reaction update lists; a missing field lists nothing. -/
def ReactionSide.ofField (reaction : Json) (field : String) : Except Fault ReactionSide := do
  let all ← (← reaction.getOr field (.arr [])).items
  all.foldlM ReactionSide.add {}

/-- The change from one side to the other. -/
def ReactionChange.between (new old : ReactionSide) : ReactionChange where
  emoji := .between new.emoji old.emoji
  custom := .between new.custom old.custom
  paid := new.paid
  paidAdded := new.paid && !old.paid

/-- How the reactions on a message changed in an update; nothing if it is about no reactions. -/
def Context.reactions (c : Context) : Except Fault ReactionChange := do
  let reaction ← c.kind "message_reaction"
  if reaction.isNull then .ok (.between {} {})
  else
    let new ← ReactionSide.ofField reaction "new_reaction"
    let old ← ReactionSide.ofField reaction "old_reaction"
    .ok (.between new old)

end UpdateDispatch
