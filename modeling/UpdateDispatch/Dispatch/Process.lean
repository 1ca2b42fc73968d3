import UpdateDispatch.Dispatch.World

/-!
# Processes

What a middleware function does, as a tree of steps. A `Process` reads and changes the state,
suspends, waits for two other processes that run side by side, or waits for a shared task, and it
ends with a value or a fault.

Guards are flags outside of the state, one for each continuation that must not be called twice. A
process can make a guard, look at one and use one, but no step takes back the use of a guard.

A process is first called and then awaited. `deferred` marks the end of the call: what follows runs
only when the result of the call is awaited. `Process.onCall` goes on when the call is over, and
`Process.andThen` when the process has ended. `enter` runs a link that is only known by then; it is
the one step whose meaning is not part of the process itself.
-/

namespace UpdateDispatch

/-- How something ended. -/
abbrev Outcome : Type := Except Fault Json

/-- How two processes ended that ran side by side, and which of them ended first. -/
structure Settled where
  left : Outcome
  right : Outcome
  leftFirst : Bool

/-- What a middleware function does. -/
inductive Process where
  | value (v : Json)
  | raised (f : Fault)
  | deferred (p : Process)
  | read (k : World → Process)
  | write (f : World → World) (p : Process)
  | newGuard (k : Nat → Process)
  | checkGuard (guard : Nat) (k : Bool → Process)
  | useGuard (guard : Nat) (p : Process)
  | pause (p : Process)
  | both (l r : Process) (k : Settled → Process)
  | start (p : Process) (k : Nat → Process)
  | await (task : Nat) (k : Outcome → Process)
  | enter (l : Link) (x : Nat) (next : Process) (k : Outcome → Process)

/-- The result of a call: a value, a fault, or something to await. -/
inductive Reply where
  | value (v : Json)
  | raised (f : Fault)
  | awaitable (p : Process)

namespace Process

instance : Inhabited Process := ⟨.value .null⟩

/-- The process that ends at once. -/
def ended : Outcome → Process
  | .ok v => value v
  | .error f => raised f

/-- The process that has nothing to do. -/
def done : Process := value .null

/-- A process that is called and awaited, and what follows when it has ended. -/
def andThen : Process → (Outcome → Process) → Process
  | value v, k => k (.ok v)
  | raised f, k => k (.error f)
  | deferred p, k => p.andThen k
  | read g, k => read fun w => (g w).andThen k
  | write f p, k => write f (p.andThen k)
  | newGuard g, k => newGuard fun i => (g i).andThen k
  | checkGuard i g, k => checkGuard i fun b => (g b).andThen k
  | useGuard i p, k => useGuard i (p.andThen k)
  | pause p, k => pause (p.andThen k)
  | both l r g, k => both l r fun s => (g s).andThen k
  | start p g, k => start p fun t => (g t).andThen k
  | await t g, k => await t fun o => (g o).andThen k
  | enter l x next g, k => enter l x next fun o => (g o).andThen k

/-- A process that is called, and what follows when the call is over. -/
def onCall : Process → (Reply → Process) → Process
  | value v, k => k (.value v)
  | raised f, k => k (.raised f)
  | deferred p, k => k (.awaitable p)
  | read g, k => read fun w => (g w).onCall k
  | write f p, k => write f (p.onCall k)
  | newGuard g, k => newGuard fun i => (g i).onCall k
  | checkGuard i g, k => checkGuard i fun b => (g b).onCall k
  | useGuard i p, k => useGuard i (p.onCall k)
  | pause p, k => pause (p.onCall k)
  | both l r g, k => both l r fun s => (g s).onCall k
  | start p g, k => start p fun t => (g t).onCall k
  | await t g, k => await t fun o => (g o).onCall k
  | enter l x next g, k => enter l x next fun o => (g o).onCall k

/-- A process and then another one, unless the first one fails. -/
def followedBy (p q : Process) : Process :=
  p.andThen fun
    | .ok _ => q
    | .error f => raised f

/-- A call and then another process, if the call gives a value. Something to await is the result
of the whole. -/
def thenCalled (p q : Process) : Process :=
  p.onCall fun
    | .value _ => q
    | .raised f => raised f
    | .awaitable r => deferred r

/-- A process whose result is of no interest. -/
def ignored (p : Process) : Process := p.followedBy done

/-- A process that is awaited even if its call gives a value. -/
def awaited (p : Process) : Process :=
  p.onCall fun
    | .value v => deferred (value v)
    | .raised f => raised f
    | .awaitable r => deferred r

/-- A number of suspensions, and what follows. -/
def pauses : Nat → Process → Process
  | 0, p => p
  | n + 1, p => pause (pauses n p)

/-- A noted event, and what follows. -/
def record (e : Event) (p : Process := done) : Process := write (World.record e) p

/-- A line of the log, and what follows. -/
def log (n : Notice) (p : Process) : Process := write (World.log n) p

end Process
end UpdateDispatch
