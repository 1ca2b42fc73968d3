import UpdateDispatch.Dispatch.Chain

/-!
# Running processes side by side

One process runs at a time, until it suspends, waits or ends. Those that can go on stand in a queue,
first come, first served. `Machine.step` is one step of the running process or, if none runs, the
next turn of the queue; it gives nothing when all is over.

Two processes that run side by side have a join. When one of them ends it queues a turn that tells
its join, and when the second one has told it, the process that waits for both is queued in turn. A
shared task queues all that wait for it as soon as it ends, in the order in which they came.
-/

namespace UpdateDispatch

/-- Whom a process runs for: it is a root, a side of a join, or a shared task. -/
inductive Owner where
  | root (index : Nat)
  | side (join : Nat) (left : Bool)
  | shared (task : Nat)
  deriving DecidableEq, Repr

/-- A turn in the queue: a process goes on, or a join is told that a side has ended. -/
inductive Turn where
  | resume (owner : Owner) (p : Process)
  | settled (join : Nat) (left : Bool) (o : Outcome)

/-- A process that waits for two others, with the one that has ended, if one has. -/
structure Join where
  owner : Owner
  next : Settled → Process
  first : Option (Bool × Outcome) := none

/-- A shared task: who waits for it, or how it ended. -/
inductive Shared where
  | running (waiters : List (Owner × (Outcome → Process)))
  | finished (o : Outcome)

/-- The state of all processes. A guard that was used stays so. -/
structure Machine where
  world : World
  guards : List Bool := []
  focus : Option (Owner × Process) := none
  ready : List Turn := []
  joins : List Join := []
  tasks : List Shared := []
  roots : List (Option Outcome) := []

namespace Machine

/-- Whether a guard has been used. -/
def used (m : Machine) (guard : Nat) : Bool := m.guards[guard]?.getD false

/-- The machine with one more turn at the end of the queue. -/
def queue (t : Turn) (m : Machine) : Machine := { m with ready := m.ready ++ [t] }

/-- The machine with a running process. -/
def focusOn (owner : Owner) (p : Process) (m : Machine) : Machine :=
  { m with focus := some (owner, p) }

/-- The machine without a running process. -/
def idle (m : Machine) : Machine := { m with focus := none }

/-- The machine after a process has ended. -/
def finish (owner : Owner) (o : Outcome) (m : Machine) : Machine :=
  match owner with
  | .root index => { m.idle with roots := m.roots.set index (some o) }
  | .side join left => m.idle.queue (.settled join left o)
  | .shared task =>
    let waiters := match m.tasks[task]? with
      | some (.running waiters) => waiters
      | _ => []
    { m.idle with
      tasks := m.tasks.set task (.finished o)
      ready := m.ready ++ waiters.map fun (owner, k) => .resume owner (k o) }

/-- How two sides ended, given the one that ended first and the other one. -/
def pair (left : Bool) (o other : Outcome) : Settled :=
  if left then { left := o, right := other, leftFirst := true }
  else { left := other, right := o, leftFirst := false }

/-- The machine after a join has been told that a side has ended. -/
def settle (join : Nat) (left : Bool) (o : Outcome) (m : Machine) : Machine :=
  match m.joins[join]? with
  | none => m
  | some j =>
    match j.first with
    | none => { m with joins := m.joins.set join { j with first := some (left, o) } }
    | some (firstLeft, first) => m.queue (.resume j.owner (j.next (pair firstLeft first o)))

/-- The machine after one step of the running process. -/
def advance (owner : Owner) (p : Process) (m : Machine) : Machine :=
  match p with
  | .value v => m.finish owner (.ok v)
  | .raised f => m.finish owner (.error f)
  | .deferred p => m.focusOn owner p
  | .read k => m.focusOn owner (k m.world)
  | .write f p => { m with world := f m.world, focus := some (owner, p) }
  | .newGuard k =>
    { m with guards := m.guards ++ [false], focus := some (owner, k m.guards.length) }
  | .checkGuard guard k => m.focusOn owner (k (m.used guard))
  | .useGuard guard p => { m with guards := m.guards.set guard true, focus := some (owner, p) }
  | .pause p => m.idle.queue (.resume owner p)
  | .both l r k =>
    let join := m.joins.length
    { m.idle with
      joins := m.joins ++ [{ owner, next := k }]
      ready := m.ready ++ [.resume (.side join true) l, .resume (.side join false) r] }
  | .start p k =>
    let task := m.tasks.length
    { m with
      focus := some (owner, k task)
      tasks := m.tasks ++ [.running []]
      ready := m.ready ++ [.resume (.shared task) p] }
  | .await task k =>
    match m.tasks[task]? with
    | some (.finished o) => m.focusOn owner (k o)
    | some (.running waiters) =>
      { m.idle with tasks := m.tasks.set task (.running (waiters ++ [(owner, k)])) }
    | none => m.finish owner (.error (.mismatch "no such task"))
  | .enter l x next k => m.focusOn owner ((l.call x next).andThen k)

/-- The next state, if there is one. -/
def step (m : Machine) : Option Machine :=
  match m.focus with
  | some (owner, p) => some (m.advance owner p)
  | none =>
    match m.ready with
    | [] => none
    | .resume owner p :: rest => some { m with ready := rest, focus := some (owner, p) }
    | .settled join left o :: rest => some (settle join left o { m with ready := rest })

/-- The machine after a number of steps, or as many as there are. -/
def run : Nat → Machine → Machine
  | 0, m => m
  | n + 1, m =>
    match m.step with
    | some m' => run n m'
    | none => m

/-- The machine that starts some processes, in order. -/
def ofRoots (w : World) (ps : List Process) : Machine :=
  { world := w
    ready := ps.mapIdx fun i p => .resume (.root i) p
    roots := ps.map fun _ => none }

/-- The greatest number of steps of a run. A chain that never ends is cut off there. -/
def stepLimit : Nat := 10000000

/-- How some processes end that are started in order, and the state after them. -/
def runAll (w : World) (ps : List Process) : List Outcome × World :=
  let m := run stepLimit (ofRoots w ps)
  (m.roots.map fun o => o.getD (.error (.mismatch "still running")), m.world)

end Machine
end UpdateDispatch
