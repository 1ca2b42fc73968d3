import UpdateDispatch.Dispatch.Bot
import UpdateDispatch.Dispatch.Machine

/-!
# Scenarios

A scenario is a list of commands on one dispatcher: registrations, dispatches, and questions to its
bots. `Command.run` gives the answer of a command with what was noted and logged while it ran. A
command that fails does not stop the scenario.
-/

namespace UpdateDispatch

/-- One command of a scenario. -/
inductive Command where
  | register (s : Step)
  | traverse (mw : Expr) (update : Json)
  | dispatch (on : String) (update : Json)
  | dispatchAll (on : String) (updates : List Json)
  | init (on : String) (times : Nat) (setDuring : Option Json)
  | setIdentity (on : String) (me : Json)
  | showIdentity (on : String)
  | showInited (on : String)
  | showObserved (on : String)
  | setAllowed (on : String) (allowed : Json)
  | showAllowed (on : String)
  | checkAllowed (on : String) (allowed : Json)

/-- What a command answers. -/
inductive Answer where
  | nothing
  | value (v : Json)
  | kinds (names : List String)
  | matched (m : Matched)
  | handled (context : String) (m : Matched)
  | inits (faults : List (Option Fault)) (fetches : Option Nat)
  deriving Repr

/-- The answer of a command, and what was noted and logged while it ran. -/
structure Report where
  answer : Except Fault Answer
  events : List Event
  notices : List Notice

namespace World

/-- The state at the start of a command: nothing is noted or logged yet, and no boundary is under
way. -/
def fresh (w : World) : World := { w with events := [], notices := [], marks := [] }

/-- The outcome of one process, and the state after it. -/
def perform (w : World) (p : Process) : Outcome × World :=
  match Machine.runAll w [p] with
  | (o :: _, w) => (o, w)
  | ([], w) => (.ok .null, w)

end World

namespace Command

/-- A process run, and its answer. -/
def performed (w : World) (p : Process) (answer : World → Except Fault Answer) :
    Except Fault Answer × World :=
  match w.perform p with
  | (.ok _, w) => (answer w, w)
  | (.error f, w) => (.error f, w)

/-- The state of the bot in a register, asked for a member. -/
def botNamed (on member : String) : Build (Nat × BotState) := do
  let id ← Build.composerNamed on
  match (← get).bot? id with
  | some b => pure (id, b)
  | none => throw (.noAttribute "Composer" member)

/-- A question to the bot in a register. -/
def asked (on member : String) (f : BotState → Except Fault Answer) : Build Answer := do
  let (_, b) ← botNamed on member
  Build.ofExcept (f b)

/-- A change of the bot in a register. -/
def changed (on member : String) (f : BotState → BotState) : Build Answer := do
  let (id, _) ← botNamed on member
  modify (World.modifyBot id f)
  pure .nothing

/-- The warning about update kinds that are listened for and not delivered. -/
def warned (kinds : List String) : Build Answer := do
  if !kinds.isEmpty then modify (World.log (.unlistened kinds))
  pure (.kinds kinds)

/-- The processes that fetch the identity of a bot, and one that sets it in the meantime. -/
def initProcesses (id times : Nat) (setDuring : Option (Option Identity)) : List Process :=
  List.replicate times (Bot.init id) ++
    (setDuring.map fun me =>
      Process.write (World.modifyBot id fun b => { b with identity := me }) .done).toList

/-- The answer to a command, and the state after it. -/
def answer (c : Command) (w : World) : Except Fault Answer × World :=
  match c with
  | .register s => (do Build.step s; pure Answer.nothing : Build Answer).outcome w
  | .traverse mw update =>
    let x := w.contexts.length
    let w := w.addContext { update, me := w.me }
    match (do (← mw.build).flatten : Build Link).outcome w with
    | (.error f, w) => (.error f, w)
    | (.ok l, w) => performed w (l.run x) fun w => .ok (.matched (w.context x).matched)
  | .dispatch on update =>
    match (Build.composerNamed on).outcome w with
    | (.error f, w) => (.error f, w)
    | (.ok id, w) =>
      let x := w.contexts.length
      performed w (Bot.handleUpdate id update) fun w => do
        .ok (.handled (← (w.context x).literal) (w.context x).matched)
  | .dispatchAll on updates =>
    match (Build.composerNamed on).outcome w with
    | (.error f, w) => (.error f, w)
    | (.ok id, w) => performed w (Bot.handleUpdates id updates) fun _ => .ok .nothing
  | .init on times setDuring =>
    match (do
      let id ← Build.composerNamed on
      let me ← setDuring.mapM Build.identityOf
      pure (id, me) : Build (Nat × Option (Option Identity))).outcome w with
    | (.error f, w) => (.error f, w)
    | (.ok (id, me), w) =>
      match Machine.runAll w (initProcesses id times me) with
      | (outcomes, w) =>
        (.ok (.inits (outcomes.map Outcome.fault?) (w.client.map fun _ => w.fetches)), w)
  | .setIdentity on me =>
    (do
      let me ← Build.identityOf me
      changed on "bot_info" fun b => { b with identity := me } : Build Answer).outcome w
  | .showIdentity on =>
    (asked on "bot_info" fun b => do
      .ok (.value (.obj (← Bot.identity b).fields))).outcome w
  | .showInited on =>
    (asked on "is_inited" fun b => .ok (.value (.bool b.identity.isSome))).outcome w
  | .showObserved on =>
    (asked on "observed_update_types" fun b => .ok (.kinds (Settings.sorted b.observed))).outcome w
  | .setAllowed on allowed =>
    (changed on "allowed_updates" fun b => { b with allowed }).outcome w
  | .showAllowed on => (asked on "allowed_updates" fun b => .ok (.value b.allowed)).outcome w
  | .checkAllowed on allowed =>
    (do
      let (_, b) ← botNamed on "validate_allowed_updates"
      warned (← Build.ofExcept (Bot.unlistened b allowed)) : Build Answer).outcome w

/-- What comes out of a command, and the state after it. -/
def run (c : Command) (w : World) : Report × World :=
  match c.answer w.fresh with
  | (answer, w) => ({ answer, events := w.events, notices := w.notices }, w)

/-- What comes out of commands that are run in order. -/
def runAll (w : World) : List Command → List Report
  | [] => []
  | c :: rest =>
    match c.run w with
    | (report, w) => report :: runAll w rest

end Command
end UpdateDispatch
