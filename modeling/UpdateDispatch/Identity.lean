import UpdateDispatch.Json.Basic

/-!
# The identity of a bot

Who the bot is that handles an update. The fields hold JSON values: an identity that comes from
outside is only known to have the right types once it has been validated.
-/

namespace UpdateDispatch

/-- The identity of a bot account. -/
structure Identity where
  id : Json
  isBot : Json := .bool true
  firstName : Json := .str ""
  username : Json := .str ""
  lastName : Json := .null
  canJoinGroups : Json := .bool false
  canReadAllGroupMessages : Json := .bool false
  supportsInlineQueries : Json := .bool false
  deriving Repr, Inhabited

namespace Identity

/-- The fields of an identity under their names, in order. -/
def fields (i : Identity) : List (String × Json) :=
  [("id", i.id), ("is_bot", i.isBot), ("first_name", i.firstName), ("username", i.username),
    ("last_name", i.lastName), ("can_join_groups", i.canJoinGroups),
    ("can_read_all_group_messages", i.canReadAllGroupMessages),
    ("supports_inline_queries", i.supportsInlineQueries)]

/-- The names of the fields, in order. -/
def fieldNames : List String :=
  ["id", "is_bot", "first_name", "username", "last_name", "can_join_groups",
    "can_read_all_group_messages", "supports_inline_queries"]

/-- The identity with the given fields, which are neither checked nor converted; missing ones have
their defaults. Without a number, or with a field that identities do not have, there is none. -/
def ofFields? (given : List (String × Json)) : Option Identity := do
  let id ← Named.find? "id" given
  if given.all fun (k, _) => fieldNames.contains k then
    let get (name : String) (default : Json) : Json := (Named.find? name given).getD default
    some
      { id
        isBot := get "is_bot" (.bool true)
        firstName := get "first_name" (.str "")
        username := get "username" (.str "")
        lastName := get "last_name" .null
        canJoinGroups := get "can_join_groups" (.bool false)
        canReadAllGroupMessages := get "can_read_all_group_messages" (.bool false)
        supportsInlineQueries := get "supports_inline_queries" (.bool false) }
  else none

end Identity
end UpdateDispatch
