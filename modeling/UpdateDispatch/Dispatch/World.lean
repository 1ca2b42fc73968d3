import UpdateDispatch.Dispatch.Link
import UpdateDispatch.Dispatch.Record

/-!
# The state of a dispatcher

The composers with their chains, the contexts of the updates under way, and the marks by which
boundaries know whether to go on. All of them have numbers, in the order in which they were made,
and `World` holds them together with what was noted and logged.
-/

namespace UpdateDispatch

/-- The client that bots call: what it answers when it is asked who the bot is, after how many
suspensions, and what it raises. An answer that is known to be an identity is not validated. -/
structure Client where
  me : Json
  known : Bool := false
  delay : Nat := 1
  throws : Option Throw := none
  callThrows : Option Throw := none
  deriving Repr

/-- What a bot has beyond its chain. -/
structure BotState where
  identity : Option Identity := none
  fetch : Option Nat := none
  contextThrows : Option Throw := none
  observed : List String := []
  allowed : Json := .null
  handler : Option Script := none

/-- A composer: its chain and, if it is a bot, the state of the bot. -/
structure Composer where
  chain : Link := .pass
  bot : Option BotState := none

/-- The state of a dispatcher. -/
structure World where
  client : Option Client
  me : Identity
  composers : List Composer := []
  contexts : List Context := []
  marks : List Bool := []
  registers : List (String × Middleware) := []
  events : List Event := []
  notices : List Notice := []
  fetches : Nat := 0

namespace World

/-- The chain of a composer. -/
def chain (w : World) (id : Nat) : Link :=
  match w.composers[id]? with
  | some c => c.chain
  | none => .pass

/-- The state of a bot, if the composer is one. -/
def bot? (w : World) (id : Nat) : Option BotState := w.composers[id]?.bind Composer.bot

/-- A context by its number. -/
def context (w : World) (x : Nat) : Context := w.contexts[x]?.getD default

/-- Whether a mark is set. -/
def marked (w : World) (i : Nat) : Bool := w.marks[i]?.getD false

/-- The state with one more composer. -/
def addComposer (c : Composer) (w : World) : World := { w with composers := w.composers ++ [c] }

/-- The state with one more context. -/
def addContext (c : Context) (w : World) : World := { w with contexts := w.contexts ++ [c] }

/-- The state with one more mark, not set. -/
def addMark (w : World) : World := { w with marks := w.marks ++ [false] }

/-- The state with one mark changed. -/
def setMark (i : Nat) (b : Bool) (w : World) : World := { w with marks := w.marks.set i b }

/-- The state with one context changed. -/
def setContext (x : Nat) (c : Context) (w : World) : World :=
  { w with contexts := w.contexts.set x c }

/-- The state with one composer changed. -/
def modifyComposer (id : Nat) (f : Composer → Composer) (w : World) : World :=
  { w with composers := w.composers.modify id f }

/-- The state with a link joined to the end of the chain of a composer. -/
def append (id : Nat) (l : Link) : World → World :=
  modifyComposer id fun c => { c with chain := .concat c.chain l }

/-- The state with the state of one bot changed. -/
def modifyBot (id : Nat) (f : BotState → BotState) : World → World :=
  modifyComposer id fun c => { c with bot := c.bot.map f }

/-- The state with one more event. -/
def record (e : Event) (w : World) : World := { w with events := w.events ++ [e] }

/-- The state with one more line in the log. -/
def log (n : Notice) (w : World) : World := { w with notices := w.notices ++ [n] }

end World

end UpdateDispatch
