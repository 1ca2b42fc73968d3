import UpdateDispatch.Trigger

/-!
# Conditions on contexts

The ready-made conditions that combinators register middleware under: filter queries, texts,
commands, reactions, chat types and the fields of the various queries. Building one can fail;
so can judging a context, when the update does not have the shape that the condition expects.

A verdict that accepts may come with the result of a trigger, and only then does the match of the
context change: `Condition.judge` reads the context, and `Context.settle` applies the verdict.
-/

namespace UpdateDispatch

/-- What a condition says about a context. -/
inductive Verdict where
  | reject
  | accept
  | acceptWith (m : Matched)
  deriving Repr

/-- The outcome of a verdict: whether it accepts, and the context with the result it came with. -/
def Context.settle (c : Context) : Verdict → Bool × Context
  | .reject => (false, c)
  | .accept => (true, c)
  | .acceptWith m => (true, { c with matched := m })

/-- The wanted reactions of a condition, by family. -/
structure WantedReactions where
  emoji : List Json
  custom : List Json
  paid : Bool
  deriving Repr

/-- A condition on contexts. -/
inductive Condition where
  | filter (present : Filter.Predicate)
  | text (present : Filter.Predicate) (triggers : List Trigger)
  | command (present : Filter.Predicate) (names : List String)
  | reaction (present : Filter.Predicate) (wanted : WantedReactions)
  | chatType (types : List Json)
  | field (present : Filter.Predicate) (kind name : String) (triggers : List Trigger)
  deriving Repr

/-- The update fields that a trigger condition can look at. -/
inductive TriggerField where
  | callbackData
  | game
  | inlineQuery
  | chosenResult
  | preCheckout
  | shipping
  deriving DecidableEq, Repr

namespace TriggerField

/-- The filter query that an update has to pass for the field to be looked at. -/
def query : TriggerField → String
  | .callbackData => "callback_query:data"
  | .game => "callback_query:game_short_name"
  | .inlineQuery => "inline_query"
  | .chosenResult => "chosen_inline_result"
  | .preCheckout => "pre_checkout_query"
  | .shipping => "shipping_query"

/-- The update kind of the field. -/
def kind : TriggerField → String
  | .callbackData | .game => "callback_query"
  | .inlineQuery => "inline_query"
  | .chosenResult => "chosen_inline_result"
  | .preCheckout => "pre_checkout_query"
  | .shipping => "shipping_query"

/-- The name of the field. -/
def field : TriggerField → String
  | .callbackData => "data"
  | .game => "game_short_name"
  | .inlineQuery => "query"
  | .chosenResult => "result_id"
  | .preCheckout | .shipping => "invoice_payload"

end TriggerField

/-- The message or channel post of an update. -/
def Context.post (c : Context) : Except Fault Json := do
  .ok (Json.firstPresent (← c.kindsOf ["message", "channel_post"]))

/-- Whether two reactions are the same: of one type, and with the same emoji if they have one. -/
def sameReaction (old new : Json) : Except Fault Bool := do
  let kind ← new.get "type"
  if !(← old.get "type").same kind then .ok false
  else if kind.same (.str "emoji") then
    .ok ((← old.get "emoji").same (← new.get "emoji"))
  else if kind.same (.str "custom_emoji") then
    .ok ((← old.get "custom_emoji_id").same (← new.get "custom_emoji_id"))
  else .ok (kind.same (.str "paid"))

/-- Whether some of the old reactions is the same as a new one. -/
def amongReactions (new : Json) : List Json → Except Fault Bool
  | [] => .ok false
  | old :: rest => do
    if ← sameReaction old new then .ok true else amongReactions new rest

/-- Whether a reaction that was not there before is a wanted one. A reaction of a type of its own
always is. -/
def WantedReactions.has (w : WantedReactions) (r : Json) : Except Fault Bool := do
  let kind ← r.get "type"
  if kind.same (.str "emoji") then .ok ((← (← r.get "emoji").asKey).isIn w.emoji)
  else if kind.same (.str "custom_emoji") then
    .ok ((← (← r.get "custom_emoji_id").asKey).isIn w.custom)
  else if kind.same (.str "paid") then .ok w.paid
  else .ok true

/-- Whether one of the new reactions is wanted and was not there before. -/
def WantedReactions.anyAdded (w : WantedReactions) (old : Json) : List Json → Except Fault Bool
  | [] => .ok false
  | r :: rest => do
    let _ ← r.get "type"
    if ← amongReactions r (← old.items) then anyAdded w old rest
    else if ← w.has r then .ok true
    else anyAdded w old rest

/-- The name and the addressee of a command, if it has an addressee. -/
def addressed? (command : String) : Option (String × String) :=
  match command.toList.span (· != '@') with
  | (name, _ :: target) => some (String.ofList name, String.ofList target)
  | _ => none

/-- Whether a command is meant for the bot and has one of the names: either as it is written, or
by its name before an addressee that is the bot, whose user name is compared without case. -/
def isCommand (names : List String) (username : Json) (command : String) : Except Fault Bool :=
  if names.contains command then .ok true
  else
    match addressed? command with
    | none => .ok false
    | some (name, target) =>
      match username with
      | .str own => .ok (Text.lower target == Text.lower own && names.contains name)
      | v => .error (.noAttribute v.typeName "lower")

/-- The arguments of the first command among the entities that is at the start of the content and
meant for the bot under one of the names. -/
def findCommand (names : List String) (username content : Json) :
    List Json → Except Fault (Option String)
  | [] => .ok none
  | entity :: rest => do
    let kind ← entity.get "type"
    if !kind.same (.str "bot_command") then findCommand names username content rest
    else if !(← entity.get "offset").same (.int 0) then findCommand names username content rest
    else
      let stop ← entity.require "length"
      match ← content.slice (some 1) (← stop.bound), content with
      | .str command, .str text =>
        if ← isCommand names username command then
          let after := text.toList.drop (command.length + 1)
          .ok (some (String.ofList (Text.trimStart after)))
        else findCommand names username content rest
      | v, _ => .error (.mismatch s!"unhashable type: '{v.typeName}'")

namespace Condition

/-- What a condition says about a context. -/
def judge (condition : Condition) (c : Context) : Except Fault Verdict :=
  let ofMatch : Option Matched → Verdict
    | some m => .acceptWith m
    | none => .reject
  match condition with
  | .filter present => .ok (if c.passes present then .accept else .reject)
  | .text present triggers => do
    if !c.passes present then .ok .reject
    else
      let content ← Context.textOf (← c.post)
      .ok (ofMatch (← Trigger.firstMatch content triggers))
  | .command present names => do
    if !c.passes present then .ok .reject
    else
      let post ← c.post
      let content ← Context.textOf post
      let entities ← (← post.getOr "entities" (.arr [])).items
      match ← findCommand names c.me.username content entities with
      | some arguments => .ok (.acceptWith (.value (.str arguments)))
      | none => .ok .reject
  | .reaction present wanted => do
    if !c.passes present then .ok .reject
    else
      let reaction ← c.kind "message_reaction"
      let old ← reaction.getOr "old_reaction" (.arr [])
      let new ← (← reaction.getOr "new_reaction" (.arr [])).items
      .ok (if ← wanted.anyAdded old new then .accept else .reject)
  | .chatType types => do
    let chat ← c.chat
    if chat.isNull then .ok .reject
    else
      let kind ← (← chat.get "type").asKey
      .ok (if kind.isIn types then .accept else .reject)
  | .field present kind name triggers => do
    if !c.passes present then .ok .reject
    else
      let content ← (← c.kind kind).get name
      if content.isNull then .ok .reject
      else .ok (ofMatch (← Trigger.firstMatch content triggers))

/-- The condition that an update passes a filter query, or one of a list. -/
def ofFilter (query : Json) : Except Fault Condition := do
  .ok (.filter (← Filter.matchFilter query))

/-- The condition that the text or caption of a message or post satisfies a trigger. -/
def ofText (triggers : List Trigger) : Except Fault Condition := do
  .ok (.text (← Filter.compileQueries [":text", ":caption"]) triggers)

/-- A command name. It is a text without a slash in front. -/
def commandName (v : Json) : Except Fault String :=
  match v with
  | .str s =>
    match s.toList with
    | '/' :: _ => .error (.slashCommand s)
    | _ => .ok s
  | v => .error (.noAttribute v.typeName "startswith")

/-- The condition that a message or post starts with one of the given commands. -/
def ofCommand (names : Json) : Except Fault Condition := do
  let present ← Filter.compileQueries [":entities:bot_command"]
  .ok (.command present (← names.listed.mapM commandName))

/-- A wanted reaction: a text is short for an emoji. -/
def wantedReaction : Json → Json
  | .str s => .obj [("type", .str "emoji"), ("emoji", .str s)]
  | v => v

/-- The values of a field of those wanted reactions that are of one type. -/
def wantedOf (kind field : String) (wanted : List Json) : Except Fault (List Json) := do
  let found ← wanted.mapM fun r => do
    if (← r.get "type").same (.str kind) then .ok [← (← r.require field).asKey] else .ok []
  .ok found.flatten

/-- The condition that one of the wanted reactions was added. -/
def ofReaction (reaction : Json) : Except Fault Condition := do
  let present ← Filter.compileQueries ["message_reaction"]
  let all ← match reaction with
    | .str _ | .obj _ => .ok [reaction]
    | v => v.items
  let wanted := all.map wantedReaction
  let emoji ← wantedOf "emoji" "emoji" wanted
  let custom ← wantedOf "custom_emoji" "custom_emoji_id" wanted
  let paid := wanted.any fun r => (r.field "type").same (.str "paid")
  .ok (.reaction present { emoji, custom, paid })

/-- The condition that the chat of an update is of one of the given types. -/
def ofChatType (types : Json) : Except Fault Condition := do
  .ok (.chatType (← types.listed.mapM Json.asKey))

/-- The condition that a field of an update satisfies a trigger. -/
def ofField (f : TriggerField) (triggers : List Trigger) : Except Fault Condition := do
  .ok (.field (← Filter.compileQueries [f.query]) f.kind f.field triggers)

/-- The condition's answer on a context, and the context after it. -/
def test (condition : Condition) (c : Context) : Except Fault (Bool × Context) := do
  .ok (c.settle (← condition.judge c))

end Condition
end UpdateDispatch
