import UpdateDispatch.Json.Access
import UpdateDispatch.Identity
import UpdateDispatch.Filter.Predicate

/-!
# Contexts

A context goes with one update through the chain: the update itself, the identity of the bot, and
the result of the last trigger that matched. The accessors look an update's parts up whatever its
kind. They take any value for an update, so each of them can fail; all parts that an accessor
chooses from are looked up first, in order, and then the first one that is there is taken.
-/

namespace UpdateDispatch

/-- Where a pattern was found in a text: the part that matched, its bounds, and its groups. -/
structure Found where
  text : String
  start : Nat
  stop : Nat
  groups : List (Option String)
  deriving DecidableEq, Repr

/-- What the last successful trigger left behind. -/
inductive Matched where
  | value (v : Json)
  | found (f : Found)
  deriving Repr

/-- The state that goes with one update. -/
structure Context where
  update : Json
  me : Identity
  matched : Matched := .value .null
  deriving Repr

instance : Inhabited Context := ⟨⟨.null, default, .value .null⟩⟩

namespace Context

/-- The update kinds that a context gives access to, in order. -/
def kinds : List String :=
  ["message", "edited_message", "channel_post", "edited_channel_post", "business_connection",
    "business_message", "edited_business_message", "deleted_business_messages",
    "message_reaction", "message_reaction_count", "inline_query", "chosen_inline_result",
    "callback_query", "shipping_query", "pre_checkout_query", "poll", "poll_answer",
    "my_chat_member", "chat_member", "chat_join_request", "chat_boost", "removed_chat_boost"]

/-- The part of an update for one kind. -/
def kind (c : Context) (name : String) : Except Fault Json := c.update.get name

/-- The parts of an update for several kinds, in order. -/
def kindsOf (c : Context) (names : List String) : Except Fault (List Json) := names.mapM c.kind

/-- The message that an update is about. -/
def msg (c : Context) : Except Fault Json := do
  let callback ← c.kind "callback_query"
  let own ← c.kindsOf ["message", "edited_message", "channel_post", "edited_channel_post",
    "business_message", "edited_business_message"]
  let inCallback ← callback.orEmpty.get "message"
  .ok (Json.firstPresent (own ++ [inCallback]))

/-- The text of a message, or the caption if it has no text. -/
def textOf (msg : Json) : Except Fault Json := do
  let text ← msg.get "text"
  let caption ← msg.get "caption"
  .ok (Json.firstPresent [text, caption])

/-- The text or caption of the message that an update is about. -/
def txt (c : Context) : Except Fault Json := do
  let msg ← c.msg
  if msg.isNull then .ok .null else textOf msg

/-- The number of the message that an update is about. -/
def msgId (c : Context) : Except Fault Json := do
  let own ← (← c.msg).orEmpty.get "message_id"
  let reaction ← (← c.kind "message_reaction").orEmpty.get "message_id"
  let count ← (← c.kind "message_reaction_count").orEmpty.get "message_id"
  .ok (Json.firstPresent [own, reaction, count])

/-- The identifier of an inline message. -/
def inlineMessageId (c : Context) : Except Fault Json := do
  let callback ← (← c.kind "callback_query").orEmpty.get "inline_message_id"
  let chosen ← (← c.kind "chosen_inline_result").orEmpty.get "inline_message_id"
  .ok (Json.firstPresent [callback, chosen])

/-- The chat that an update happened in. -/
def chat (c : Context) : Except Fault Json := do
  let msg ← c.msg
  let others ← c.kindsOf ["deleted_business_messages", "message_reaction",
    "message_reaction_count", "my_chat_member", "chat_member", "chat_join_request", "chat_boost",
    "removed_chat_boost"]
  let source := Json.firstPresent (msg :: others)
  if source.isNull then .ok .null else source.get "chat"

/-- The number of the chat to answer in. -/
def chatId (c : Context) : Except Fault Json := do
  let asked ← (← c.kind "chat_join_request").orEmpty.get "user_chat_id"
  let own ← (← c.chat).orEmpty.get "id"
  let business ← (← c.kind "business_connection").orEmpty.get "user_chat_id"
  .ok (Json.firstPresent [asked, own, business])

/-- The sender of the part of an update that names one. -/
def sender (c : Context) : Except Fault Json := do
  let callback ← c.kind "callback_query"
  let msg ← c.msg
  let others ← c.kindsOf ["inline_query", "chosen_inline_result", "shipping_query",
    "pre_checkout_query", "my_chat_member", "chat_member", "chat_join_request"]
  let source := Json.firstPresent (callback :: msg :: others)
  if source.isNull then .ok .null else source.get "from"

/-- The user who caused an update: the owner of what it is about, or else its sender. -/
def fromUser (c : Context) : Except Fault Json := do
  let boost ← (← c.kind "chat_boost").orEmpty.get "boost"
  let removed ← c.kind "removed_chat_boost"
  let business ← c.kind "business_connection"
  let reaction ← c.kind "message_reaction"
  let source ← (Json.firstPresent [boost, removed]).orEmpty.get "source"
  let owner := Json.firstPresent [business, reaction, source]
  if owner.isNull then c.sender
  else
    let user ← owner.get "user"
    if user.isNull then c.sender else .ok user

/-- The identifier of an update, null if it has none. -/
def updateId (c : Context) : Except Fault Json := c.update.get "update_id"

/-- The line that stands for a context in answers. -/
def literal (c : Context) : Except Fault String := do
  .ok ("Context(update_id=" ++ (← c.updateId).literal ++ ")")

/-- The update kinds that are present and not null, with their parts. -/
def presentKinds (c : Context) : Except Fault (List (String × Json)) := do
  let parts ← c.kindsOf kinds
  .ok ((kinds.zip parts).filter fun (_, v) => !v.isNull)

/-- The accessors that have a name. -/
def accessor? (name : String) : Option (Context → Except Fault Json) :=
  match name with
  | "msg" => some msg
  | "txt" => some txt
  | "msg_id" => some msgId
  | "inline_message_id" => some inlineMessageId
  | "chat" => some chat
  | "chat_id" => some chatId
  | "from_user" => some fromUser
  | "update" => some fun c => .ok c.update
  | name => if kinds.contains name then some fun c => c.kind name else none

/-- Whether an update passes a filter. -/
def passes (c : Context) (p : Filter.Predicate) : Bool := p.test c.update c.me.id

end Context
end UpdateDispatch
