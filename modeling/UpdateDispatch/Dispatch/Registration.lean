import UpdateDispatch.Dispatch.World
import UpdateDispatch.Settings.Environment

/-!
# Registration

How chains grow. Registrations run at once, without suspending; `Build` is a computation on the
state that can fail. What was changed before a failure stays, but the arguments of a combinator are
flattened before it touches its composer, so a middleware that is refused leaves no link behind.

Every combinator appends one link to its composer. `use` appends a composer with the given
middleware, and the others are made of it: filters and branches append a link that chooses its
middleware for each context.
-/

namespace UpdateDispatch

/-- A computation on the state that can fail. -/
abbrev Build (α : Type) : Type := ExceptT Fault (StateM World) α

namespace Build

/-- The outcome of a computation, and the state after it. -/
def outcome {α : Type} (b : Build α) (w : World) : Except Fault α × World := StateT.run b w

/-- A computation that does not change the state. -/
def ofExcept {α : Type} (e : Except Fault α) : Build α :=
  match e with
  | .ok a => pure a
  | .error f => throw f

end Build

/-- The function of a middleware. A container is asked for its function, a composer is entered when
its turn comes. -/
def Middleware.flatten : Middleware → Build Link
  | .link l => pure l
  | .composer id => pure (.composer id)
  | .container name inner => do
    modify (World.record (.accessed name))
    pure inner
  | .other v => throw (.notMiddleware v.typeName)

/-- The links of middleware joined one after the other, after a first one. -/
def composeAfter (first : Link) : List Middleware → Build Link
  | [] => pure first
  | m :: rest => do composeAfter (.concat first (← m.flatten)) rest

/-- The chain of a list of middleware. -/
def compose : List Middleware → Build Link
  | [] => pure .pass
  | m :: rest => do composeAfter (← m.flatten) rest

/-- The object in a register. -/
def Build.named (register : String) : Build Middleware := do
  match Named.find? register (← get).registers with
  | some m => pure m
  | none => throw (.noKey register)

/-- The composer in a register. -/
def Build.composerNamed (register : String) : Build Nat := do
  match ← Build.named register with
  | .composer id => pure id
  | .other v => throw (.mismatch s!"'{v.typeName}' object is no composer")
  | _ => throw (.mismatch "a function is no composer")

/-- The middleware that an expression denotes. -/
def Expr.build : Expr → Build Middleware
  | .pass => pure (.link .pass)
  | .named register => Build.named register
  | .value v => pure (.other v)
  | .flat e => do pure (.link (← (← e.build).flatten))
  | .joined first second => do
    let first ← (← first.build).flatten
    let second ← (← second.build).flatten
    pure (.link (.concat first second))
  | .container name inner => do pure (.container name (← (← inner.build).flatten))
  | .script actions plain => pure (.link (.script { actions, plain }))

/-- The middleware of a list of expressions. -/
def buildAll (es : List Expr) : Build (List Middleware) := es.mapM Expr.build

/-- One middleware as a list: a list value stands for its items. -/
def Middleware.listed : Middleware → List Middleware
  | .other (.arr items) => items.map .other
  | m => [m]

/-- The middleware of a specification. -/
def Spec.build : Spec → Build (List Middleware)
  | .one e => do pure (← e.build).listed
  | .many es => buildAll es

/-- The middleware of a specification that may stand for no choice: null does. -/
def Spec.buildChoice : Spec → Build (Option (List Middleware))
  | .one e => do
    match ← e.build with
    | .other .null => pure none
    | m => pure (some m.listed)
  | .many es => do pure (some (← buildAll es))

/-- A function of the context with its condition built. -/
def Probe.build (p : Probe Listener) : Build (Probe Condition) := do
  let source : Source Condition ←
    match p.source with
    | .condition l => do pure (.condition (← Build.ofExcept l.condition))
    | .constant v => pure (.constant v)
    | .field name equals => pure (.field name equals)
  pure { delay := p.delay, note := p.note, throws := p.throws, source, reading := p.reading }

namespace Build

/-- A new composer. -/
def newComposer (c : Composer) : Build Nat := do
  let id := (← get).composers.length
  modify (World.addComposer c)
  pure id

/-- A new composer with a chain of middleware. -/
def composerOf (mw : List Middleware) : Build Nat := do newComposer { chain := ← compose mw }

/-- Middleware added to a composer: the new composer that holds it. -/
def use (id : Nat) (mw : List Middleware) : Build Nat := do
  let child ← composerOf mw
  modify (World.append id (.composer child))
  pure child

/-- A single link added to a composer. -/
def useLink (id : Nat) (l : Link) : Build Nat := use id [.link l]

/-- Middleware that runs only where a probe holds, or only where it does not. -/
def filter (id : Nat) (p : Probe Condition) (negated : Bool) (mw : List Middleware) :
    Build Nat := do
  let child ← composerOf mw
  let _ ← useLink id (.lazily (.branch p negated [.composer child] [.link .pass]))
  pure child

/-- Middleware that runs beside the rest of the chain. -/
def fork (id : Nat) (mw : List Middleware) : Build Nat := do
  let side ← composerOf mw
  let _ ← useLink id (.fork side)
  pure side

/-- Middleware whose failures a handler gets. -/
def boundary (id : Nat) (handler : Script) (mw : List Middleware) : Build Nat := do
  let inner ← composerOf mw
  let _ ← useLink id (.boundary inner handler)
  pure inner

/-- A text in a list, at the end if it is not there yet. -/
def including (texts : List String) (s : String) : List String :=
  if texts.contains s then texts else texts ++ [s]

/-- The state of a bot with some update kinds observed. -/
def observing (kinds : List String) (b : BotState) : BotState :=
  { b with observed := kinds.foldl including b.observed }

/-- The update kinds that a listener waits for, where bots keep track of them. -/
def observedKinds : Listener → Except Fault (List String)
  | .filter query => do
    let paths ← Filter.expand (← Filter.queries query)
    .ok (paths.map fun path => String.ofList (path.toList.takeWhile (· != ':')))
  | .reaction _ => .ok ["message_reaction"]
  | _ => .ok []

/-- Middleware that runs for the updates that a listener waits for. A bot takes note of their
kinds. -/
def listen (id : Nat) (l : Listener) (mw : List Middleware) : Build Nat := do
  if ((← get).bot? id).isSome then
    let kinds ← ofExcept (observedKinds l)
    modify (World.modifyBot id (observing kinds))
  let condition ← ofExcept l.condition
  filter id { source := .condition condition } false mw

/-- A handler set for a key. Of equal keys the later one counts. -/
def setHandler (key : Json) (mw : Option (List Middleware)) :
    List (Json × Option (List Middleware)) → List (Json × Option (List Middleware))
  | [] => [(key, mw)]
  | (k, old) :: rest =>
    if k.same key then (k, mw) :: rest else (k, old) :: setHandler key mw rest

/-- The handlers of a route. -/
def handlersOf : List (Json × Spec) → List (Json × Option (List Middleware)) →
    Build (List (Json × Option (List Middleware)))
  | [], acc => pure acc
  | (key, spec) :: rest, acc => do
    let mw ← spec.buildChoice
    let key ← ofExcept key.asKey
    handlersOf rest (setHandler key mw acc)

/-- A registration on a composer; it gives the composer to go on with. -/
def register (id : Nat) : Registration → Build Nat
  | .use mw => do use id (← buildAll mw)
  | .fork mw => do fork id (← buildAll mw)
  | .filter p mw => do
    let mw ← buildAll mw
    filter id (← p.build) false mw
  | .drop p mw => do
    let mw ← buildAll mw
    filter id (← p.build) true mw
  | .branch p yes no => do
    let p ← p.build
    let yes ← yes.build
    let no ← no.build
    useLink id (.lazily (.branch p false yes no))
  | .lazily factory table default => do
    useLink id (.lazily (.table (← factory.build) table default))
  | .route router handlers fallback => do
    let router ← router.build
    let handlers ← handlersOf handlers []
    let fallback ← fallback.buildChoice
    useLink id (.lazily (.route router handlers (fallback.getD [])))
  | .boundary actions plain mw => do boundary id { actions, plain } (← buildAll mw)
  | .listen l mw => do listen id l (← buildAll mw)

/-- The object that a step gives, put into a register. -/
def store (into : Option String) (m : Middleware) : Build Unit :=
  match into with
  | some register => modify fun w => { w with registers := Named.set register m w.registers }
  | none => pure ()

/-- A new bot. -/
def newBot (into : Option String) (b : BotState) : Build Unit := do
  store into (.composer (← newComposer { bot := some b }))

/-- The identity with the fields of a value, null for none. -/
def identityOf (v : Json) : Build (Option Identity) :=
  match v with
  | .obj fields =>
    match Identity.ofFields? fields with
    | some i => pure (some i)
    | none => throw (.mismatch "not the fields of an identity")
  | _ => pure none

/-- A step of registration. -/
def step : Step → Build Unit
  | .create into mw => do store into (.composer (← composerOf (← buildAll mw)))
  | .createBot into identity throws => do
    let identity ← match identity with
      | some v => identityOf v
      | none => do pure (some (← get).me)
    newBot into { identity, contextThrows := throws }
  | .createBotFrom into fields => do
    let settings ← ofExcept (Settings.ofFields [] fields)
    newBot into
      { identity := settings.identity
        allowed := (settings.allowedKinds.map fun kinds => Json.arr (kinds.map .str)).getD .null }
  | .register on into r => do store into (.composer (← register (← composerNamed on) r))
  | .grab on into => do store into (.link (.composer (← composerNamed on)))
  | .handle on actions plain => do
    let id ← composerNamed on
    match (← get).bot? id with
    | some _ => modify (World.modifyBot id fun b => { b with handler := some { actions, plain } })
    | none => throw (.noAttribute "Composer" "catch")

end Build
end UpdateDispatch
