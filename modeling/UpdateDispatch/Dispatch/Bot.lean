import UpdateDispatch.Dispatch.Chain

/-!
# Bots

A bot is a composer at the root of a tree of chains. `handleUpdate` makes a context for an update
and runs the chain of the bot; a fault of the chain becomes a failure that holds the context.
`handleUpdates` goes through a batch and gives each failure to the error handler of the bot.

`init` fetches the identity of the bot unless it is known. Calls that come while a request is under
way share it, and an identity that was set in the meantime is not overwritten.
-/

namespace UpdateDispatch.Bot

open Process

/-- The state of a bot that is asked for a member, and what follows. -/
def withBot (id : Nat) (member : String) (k : World → BotState → Process) : Process :=
  read fun w =>
    match w.bot? id with
    | some b => k w b
    | none => raised (.noAttribute "Composer" member)

/-- An update handled by a bot; the value is the number of its context. -/
def handleUpdate (id : Nat) (update : Json) : Process :=
  withBot id "handle_update" fun w b =>
    match b.identity with
    | none => raised (.noIdentity .dispatching)
    | some me =>
      match update.get "update_id" with
      | .error f => raised f
      | .ok updateId =>
        log (.processing updateId) <|
          match b.contextThrows with
          | some t => raised (t.fault none)
          | none =>
            let x := w.contexts.length
            write (World.addContext { update, me }) <|
              ((Link.composer id).run x).andThen fun
                | .ok _ => value (.int x)
                | .error f => log (.chainFailed updateId) (raised (.failure f (some x)))

/-- The context that a failure holds. -/
def failureContext : Fault → Option Nat
  | .failure _ context | .failureValue _ context => context
  | _ => none

/-- What a bot without a handler does with a failure: it logs it and raises it again. -/
def defaultHandler (failure : Fault) : Process :=
  ({ context := failureContext failure : Frame }).withContext "update" fun _ c =>
    match c.updateId with
    | .error f => raised f
    | .ok updateId => log (.failed updateId failure) (log .noHandler (raised failure))

/-- The error handler of a bot, called with a failure. -/
def report (id : Nat) (failure : Fault) : Process :=
  withBot id "error_handler" fun _ b =>
    match b.handler with
    | some handler =>
      handler.call { context := failureContext failure, failure := some failure }
    | none => deferred (defaultHandler failure)

/-- Whether a fault is a failure of middleware. -/
def isFailure : Fault → Bool
  | .failure _ _ | .failureValue _ _ => true
  | _ => false

/-- A batch of updates handled by a bot, in order. -/
def handleUpdates (id : Nat) : List Json → Process
  | [] => done
  | update :: rest =>
    (handleUpdate id update).andThen fun
      | .ok _ => handleUpdates id rest
      | .error f =>
        if isFailure f then (report id f).followedBy (handleUpdates id rest)
        else
          match update.get "update_id" with
          | .ok updateId => log (.unhandled updateId) (raised f)
          | .error g => raised g

/-- The identity of a bot, where one is needed. -/
def identity (b : BotState) : Except Fault Identity :=
  match b.identity with
  | some me => .ok me
  | none => .error (.noIdentity .reading)

/-- The line of the log that says who the bot is. -/
def announce (id : Nat) : Process :=
  withBot id "bot_info" fun _ b =>
    match identity b with
    | .ok me => log (.identified me.username) done
    | .error f => raised f

/-- The identity that an answer of the client gives. -/
def identityFrom (client : Client) (answer : Json) : Except Fault Identity :=
  if client.known then
    match answer with
    | .obj fields =>
      match Identity.ofFields? fields with
      | some me => .ok me
      | none => .error (.mismatch "not the fields of an identity")
    | _ => .error (.mismatch "not the fields of an identity")
  else
    match Identity.validate "" answer with
    | .ok me => .ok me
    | .error faults => .error (.invalid faults)

/-- The answer of a fetch taken for the identity of a bot that has none by then. -/
def adopt (id : Nat) (me : Identity) : Process :=
  withBot id "init" fun _ b =>
    match b.identity with
    | none => write (World.modifyBot id fun b => { b with identity := some me }) (announce id)
    | some _ => log .alreadyKnown (announce id)

/-- The state of a bot whose request is over; a request that was made since then stays. -/
def forget (task : Nat) (b : BotState) : BotState :=
  { b with fetch := if b.fetch = some task then none else b.fetch }

/-- A request that is waited for, and what its answer is taken for. -/
def awaitFetch (id : Nat) (client : Client) (task : Nat) : Process :=
  await task fun o =>
    write (World.modifyBot id (forget task)) <|
      match o with
      | .error f => raised f
      | .ok answer =>
        match identityFrom client answer with
        | .ok me => adopt id me
        | .error f => raised f

/-- The identity of a bot fetched, unless it is known. -/
def init (id : Nat) : Process :=
  withBot id "init" fun w b =>
    if b.identity.isSome then announce id
    else
      match w.client with
      | none => raised (.noIdentity .fetching)
      | some client =>
        log .initializing <|
          match b.fetch with
          | some task => awaitFetch id client task
          | none =>
            start client.fetch fun task =>
              write (World.modifyBot id fun b => { b with fetch := some task })
                (awaitFetch id client task)

/-- The observed update kinds that are not among the allowed ones, sorted. Without a list of
allowed kinds, that of the bot counts, and without that one the kinds that are delivered by
default. -/
def unlistened (b : BotState) (allowed : Json) : Except Fault (List String) := do
  let given := Json.firstPresent [allowed, b.allowed, .arr (Filter.defaultKinds.map .str)]
  let kinds ← (← given.items).mapM Json.asKey
  .ok (Settings.sorted (b.observed.filter fun kind => !(Json.str kind).isIn kinds))

end UpdateDispatch.Bot
