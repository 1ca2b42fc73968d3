import UpdateDispatch.Dispatch.Process
import UpdateDispatch.Dispatch.Registration

/-!
# Running chains

What scripts and links do when they are called with a context and a continuation. `Link.call` gives
the process of a link, and the continuation is a process as well: calling it runs the rest of the
chain.

Two links joined by `concat` are guarded: each run of the pair has a guard of its own, the
continuation of the first link uses it before anything of the second one runs, and a call that
finds it used raises. A fork runs its branch beside the rest of the chain and waits for both. A
boundary hands a failure of its inner chain to a handler and goes on with the rest of the chain
only after both, if one of them asked for it.
-/

namespace UpdateDispatch

namespace Process

/-- A computation on the state, and what follows if it succeeds. -/
def building {α : Type} (b : Build α) (k : α → Process) : Process :=
  read fun w =>
    match b.outcome w with
    | (.ok a, w') => write (fun _ => w') (k a)
    | (.error f, w') => write (fun _ => w') (raised f)

end Process

/-- What a script is called with. A handler gets a failure and its context, if it has one. -/
structure Frame where
  context : Option Nat
  next : Option Process := none
  failure : Option Fault := none

namespace Frame

open Process

/-- The context of a frame, which is asked for a member, and what follows. -/
def withContext (e : Frame) (member : String) (k : Nat → Context → Process) : Process :=
  match e.context with
  | some x => read fun w => k x (w.context x)
  | none => raised (.noAttribute "NoneType" member)

/-- The value of a context, and what follows. -/
def withValue {α : Type} (e : Frame) (member : String) (f : Context → Except Fault α)
    (k : α → Process) : Process :=
  e.withContext member fun _ c =>
    match f c with
    | .ok a => k a
    | .error fault => raised fault

/-- The call of the continuation. -/
def proceed (e : Frame) : Process :=
  e.next.getD (raised (.mismatch "'NoneType' object is not callable"))

end Frame

/-- The fault of an outcome, if it is one. -/
def Outcome.fault? : Outcome → Option Fault
  | .ok _ => none
  | .error f => some f

/-- The context with one field of its update set. -/
def Context.setField (c : Context) (key : String) (v : Json) : Except Fault Context :=
  match c.update with
  | .obj fields => .ok { c with update := .obj (Named.set key v fields) }
  | .arr _ => .error (.mismatch "list indices must be integers or slices, not str")
  | u => .error (.mismatch s!"'{u.typeName}' object does not support item assignment")

/-- The named member of a context: a part of its update, its identity or its match. -/
def Context.member (c : Context) (name : String) : Except Fault Matched :=
  match name with
  | "match" => .ok c.matched
  | "me" => .ok (.value (.obj c.me.fields))
  | name =>
    match Context.accessor? name with
    | some f => (f c).map .value
    | none => .error (.noAttribute "Context" name)

/-- Whether a context passes a filter query, or one of a list. -/
def Context.has (c : Context) (query : Json) : Except Fault Bool := do
  .ok (c.passes (← Filter.matchFilter query))

namespace Client

open Process

/-- A call of a method of the client. -/
def call (client : Client) (method : String) (payload : Json) : Process :=
  record (.called method payload) <|
    match client.callThrows with
    | some t => raised (t.fault none)
    | none => value (.obj [("ok", .bool true)])

/-- The request for the identity of the bot. -/
def fetch (client : Client) : Process :=
  write (fun w => { w with fetches := w.fetches + 1 }) <| pauses client.delay <|
    match client.throws with
    | some t => raised (t.fault none)
    | none => value client.me

end Client

namespace Process

/-- A message to the chat of a context. -/
def reply (c : Context) (text : Json) (other : List (String × Json)) : Process :=
  if other.any fun (key, _) => key == "text" || key == "self" then
    raised (.mismatch "got multiple values for argument")
  else read fun w =>
    match w.client with
    | none => raised .noClient
    | some client =>
      match c.chatId with
      | .error fault => raised fault
      | .ok chat =>
        if chat.isNull then raised .noChat
        else
          client.call "sendMessage" (Json.ofFields ([("chat_id", chat), ("text", text)] ++ other))

/-- A failure as scripts note it. -/
def noteFailure (e : Frame) : Process :=
  match e.failure with
  | some failure =>
    e.withContext "update" fun _ c =>
      match c.updateId with
      | .ok id => record (.failed failure id)
      | .error fault => raised fault
  | none => raised (.mismatch "no failure to note")

/-- The fault that a failure holds, raised. A value that is no fault cannot be raised. -/
def throwCause (failure : Option Fault) : Process :=
  match failure with
  | some (.failure cause _) => raised cause
  | _ => raised (.mismatch "exceptions must derive from BaseException")

end Process

open Process in
/-- What one action of a script does. -/
def Action.call (e : Frame) : Action → Process
  | .note v => record (.note v)
  | .next => e.proceed
  | .nextDropped =>
    e.proceed.onCall fun
      | .raised f => raised f
      | _ => done
  | .nextCaught =>
    deferred <| e.proceed.andThen fun
      | .ok _ => done
      | .error f => record (.caught f)
  | .nextTwice =>
    deferred <| both e.proceed e.proceed fun s =>
      record (.race (Outcome.fault? s.left) (Outcome.fault? s.right))
  | .pause count => deferred (pauses count done)
  | .throw t => raised (t.fault e.context)
  | .noteMatch => e.withContext "match" fun _ c => record (.matched c.matched)
  | .setMatch v =>
    e.withContext "match" fun x c => write (World.setContext x { c with matched := .value v }) done
  | .setField key v =>
    e.withContext "update" fun x c =>
      match c.setField key v with
      | .ok c => write (World.setContext x c) done
      | .error fault => raised fault
  | .noteField key =>
    e.withValue "update" (fun c => c.update.get key) fun v => record (.field key v)
  | .noteAccessor name =>
    e.withValue name (fun c => c.member name) fun m => record (.accessor name m)
  | .noteFilter query =>
    e.withValue "has" (fun c => c.has query) fun b => record (.filter query b)
  | .reply text other =>
    deferred <| e.withContext "reply" fun _ c =>
      (Process.reply c text other).andThen fun
        | .ok v => record (.replied v)
        | .error f => raised f
  | .step s => building (Build.step s) fun _ => done
  | .rethrow =>
    match e.failure with
    | some failure => raised failure
    | none => raised (.mismatch "exceptions must derive from BaseException")
  | .throwCause => Process.throwCause e.failure
  | .noteFailure => Process.noteFailure e

/-- The actions of a suspended function, each awaited before the next one. -/
def Action.runAll (e : Frame) : List Action → Process
  | [] => .done
  | a :: rest => (a.call e).followedBy (runAll e rest)

/-- The actions of a plain function, up to the first one that gives something to await. -/
def Action.callAll (e : Frame) : List Action → Process
  | [] => .done
  | a :: rest => (a.call e).thenCalled (callAll e rest)

/-- The call of a scripted function. -/
def Script.call (s : Script) (e : Frame) : Process :=
  if s.plain then Action.callAll e s.actions else .deferred (Action.runAll e s.actions)

namespace Probe

open Process

/-- What a value is read as. -/
def reads (p : Probe Condition) (v : Json) : Json :=
  match p.reading with
  | some (yes, no) => if v.truthy then yes else no
  | none => v

/-- The value of a function of the context. -/
def answer (p : Probe Condition) (x : Nat) : Process :=
  match p.source with
  | .condition condition =>
    read fun w =>
      match condition.test (w.context x) with
      | .ok (b, c) => write (World.setContext x c) (value (p.reads (.bool b)))
      | .error fault => raised fault
  | .constant v => value (p.reads v)
  | .field name equals =>
    read fun w =>
      match (w.context x).update.get name with
      | .ok v =>
        match equals with
        | some wanted => value (p.reads (.bool (v.same wanted)))
        | none => value (p.reads v)
      | .error fault => raised fault

/-- A function of the context, called and awaited. -/
def ask (p : Probe Condition) (x : Nat) (k : Json → Process) : Process :=
  let noted (q : Process) : Process :=
    match p.note with
    | some v => record (.note v) q
    | none => q
  let asked := pauses p.delay <| noted <|
    match p.throws with
    | some t => raised (t.fault (some x))
    | none => p.answer x
  asked.andThen fun
    | .ok v => k v
    | .error fault => raised fault

end Probe

/-- The middleware of the handler for a key, if there is one. -/
def handlerFor (key : Json) : List (Json × Option (List Middleware)) → Option (List Middleware)
  | [] => none
  | (k, mw) :: rest => if k.same key then mw else handlerFor key rest

/-- The specification that a table holds for a value. -/
def specFor (v : Json) (table : List (String × Spec)) (default : Spec) : Spec :=
  match v with
  | .str key => (Named.find? key table).getD default
  | _ => default

/-- The middleware that a choice makes for a context, and what follows. -/
def Choice.pick (c : Choice) (x : Nat) (k : Build (List Middleware) → Process) : Process :=
  match c with
  | .branch p negated yes no =>
    p.ask x fun v => k (pure (if v.truthy != negated then yes else no))
  | .route router handlers fallback =>
    router.ask x fun key =>
      if key.isNull then k (pure fallback)
      else
        match key.asKey with
        | .ok key => k (pure ((handlerFor key handlers).getD fallback))
        | .error fault => .raised fault
  | .table factory specs default =>
    factory.ask x fun v =>
      match v.asKey with
      | .ok v => k (specFor v specs default).build
      | .error fault => .raised fault

namespace Process

/-- The end of a chain. -/
def leaf : Process := deferred done

/-- The call of a composer's current chain. -/
def dispatch (id x : Nat) (next : Process) : Process :=
  deferred <| read fun w => enter (w.chain id) x next fun o => (ended o).ignored

/-- A continuation that may be called once: its guard is used before anything else happens. -/
def once (guard : Nat) (rest : Process) : Process :=
  checkGuard guard fun used =>
    if used then raised .nextCalledTwice else useGuard guard rest.awaited

/-- Two middleware functions joined: the second one is the continuation of the first one, which may
call it once. -/
def concat (first second : Nat → Process → Process) (x : Nat) (next : Process) : Process :=
  deferred <| newGuard fun guard => (first x (once guard (second x next))).ignored

/-- A new mark, and what follows. -/
def withMark (k : Nat → Process) : Process :=
  read fun w => write World.addMark (k w.marks.length)

/-- How a fork ends: with the failure that came first, after the other one has been logged. -/
def joined (s : Settled) : Process :=
  match s.left, s.right with
  | .ok _, .ok _ => done
  | .error f, .ok _ => raised f
  | .ok _, .error f => raised f
  | .error f, .error g =>
    if s.leftFirst then log (.forkFailed g) (raised f) else log (.forkFailed f) (raised g)

/-- The rest of the chain beside a branch of it. When the call of the rest fails, the branch is not
started. -/
def fork (side x : Nat) (next : Process) : Process :=
  next.onCall fun
    | .raised f => raised f
    | .value v => both (value v) (dispatch side x leaf) joined
    | .awaitable rest => both rest (dispatch side x leaf) joined

/-- The inner chain of a boundary, then its handler if the chain fails, then the rest of the chain
if the continuation was called by the one that came last. -/
def boundary (inner : Nat) (handler : Script) (x : Nat) (next : Process) : Process :=
  withMark fun mark =>
    let resume := deferred (write (World.setMark mark true) done)
    let finish := read fun w => if w.marked mark then next.ignored else done
    (dispatch inner x resume).andThen fun
      | .ok _ => finish
      | .error f =>
        write (World.setMark mark false) <| log (.boundaryCaught f) <|
          (handler.call
            { context := some x, next := some resume, failure := some (.failure f (some x)) }
            ).followedBy finish

end Process

open Process in
/-- The process of a link, for a context and the rest of the chain. -/
def Link.call : Link → Nat → Process → Process
  | .pass, _, next => next
  | .script s, x, next => s.call { context := some x, next := some next }
  | .composer id, x, next => dispatch id x next
  | .concat first second, x, next => Process.concat first.call second.call x next
  | .lazily c, x, next =>
    deferred <| c.pick x fun mw =>
      building (mw >>= compose) fun chain => enter chain x next fun o => (ended o).ignored
  | .fork side, x, next => deferred (Process.fork side x next)
  | .boundary inner handler, x, next => deferred (Process.boundary inner handler x next)

/-- A link run to its end for one context. -/
def Link.run (l : Link) (x : Nat) : Process := (l.call x .leaf).ignored

end UpdateDispatch
