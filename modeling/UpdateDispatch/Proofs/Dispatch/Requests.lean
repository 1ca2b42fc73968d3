import UpdateDispatch.Proofs.Dispatch.Turns
import UpdateDispatch.Dispatch.Bot

/-!
# Requests for the identity of a bot

Calls of `Bot.init` run side by side with assignments of an identity and with a client that comes to
answer differently. `Machine.Running` lists what the running process of such a run can be at, with
what the bot and the requests are like then, and `Machine.Queued` what waits for a turn. `Serving`
puts this together with the one fact that carries the sharing of requests: a request that is under
way is the last one that was made, and the bot holds it (`Serving.flight`).
-/

namespace UpdateDispatch

open Relation

namespace World

variable {w : World} {id : Nat}

/-- The identity of a bot, if it has one. -/
def identityOf (w : World) (id : Nat) : Option Identity := (w.bot? id).bind BotState.identity

/-- The request that a bot holds, if there is one. -/
def requestOf (w : World) (id : Nat) : Option Nat := (w.bot? id).bind BotState.fetch

theorem bot?_modifyBot (f : BotState → BotState) :
    (w.modifyBot id f).bot? id = (w.bot? id).map f := by
  rw [bot?, bot?, modifyBot, modifyComposer, List.getElem?_modify_eq]
  rcases w.composers[id]? with _ | c <;> rfl

theorem identityOf_modifyBot (f : BotState → BotState) :
    (w.modifyBot id f).identityOf id = (w.bot? id).bind fun b => (f b).identity := by
  rw [identityOf, bot?_modifyBot, Option.bind_map]
  rfl

theorem requestOf_modifyBot (f : BotState → BotState) :
    (w.modifyBot id f).requestOf id = (w.bot? id).bind fun b => (f b).fetch := by
  rw [requestOf, bot?_modifyBot, Option.bind_map]
  rfl

end World

/-- A child of a process in the tree of its steps, where nothing is joined or entered. -/
inductive Process.Child : Process → Process → Prop
  | read (k : World → Process) (w : World) : Child (k w) (.read k)
  | write (f : World → World) (p : Process) : Child p (.write f p)
  | pause (p : Process) : Child p (.pause p)
  | await (t : Nat) (k : Outcome → Process) (o : Outcome) : Child (k o) (.await t k)
  | start (p : Process) (k : Nat → Process) (t : Nat) : Child (k t) (.start p k)
  | started (p : Process) (k : Nat → Process) : Child p (.start p k)

namespace Bot

open Process

/-! ## The parts of a call -/

/-- What a call does with the end of the request that it has waited for. -/
def conclude (id : Nat) (client : Client) : Outcome → Process
  | .error f => raised f
  | .ok answer =>
    match identityFrom client answer with
    | .ok me => adopt id me
    | .error f => raised f

/-- What a call goes on with when the request has ended. -/
def afterFetch (id : Nat) (client : Client) (task : Nat) (o : Outcome) : Process :=
  write (World.modifyBot id (forget task)) (conclude id client o)

/-- A call that has made a request, which the bot does not hold yet. -/
def noteRequest (id : Nat) (client : Client) (task : Nat) : Process :=
  write (World.modifyBot id fun b => { b with fetch := some task }) (awaitFetch id client task)

/-- A call that makes a request. -/
def request (id : Nat) (client : Client) : Process := start client.fetch (noteRequest id client)

/-- An assignment of an identity. -/
def assign (id : Nat) (me : Identity) : Process :=
  write (World.modifyBot id fun b => { b with identity := some me }) done

/-- From now on the client answers differently. -/
def answerWith (client : Client) : Process := write (fun w => { w with client := some client }) done

theorem awaitFetch_eq (id : Nat) (client : Client) (task : Nat) :
    awaitFetch id client task = await task (afterFetch id client task) := rfl

/-- What a call does at first, in a state. -/
def initIn (id : Nat) (w : World) : Process :=
  match w.bot? id with
  | some b =>
    if b.identity.isSome then announce id
    else
      match w.client with
      | none => raised (.noIdentity .fetching)
      | some client =>
        log .initializing <|
          match b.fetch with
          | some task => awaitFetch id client task
          | none => request id client
  | none => raised (.noAttribute "Composer" "init")

theorem init_eq (id : Nat) : init id = read (initIn id) := rfl

/-- What a valid answer is taken for, in a state. -/
def adoptIn (id : Nat) (me : Identity) (w : World) : Process :=
  match w.bot? id with
  | some b =>
    match b.identity with
    | none => write (World.modifyBot id fun b => { b with identity := some me }) (announce id)
    | some _ => log .alreadyKnown (announce id)
  | none => raised (.noAttribute "Composer" "init")

theorem adopt_eq (id : Nat) (me : Identity) : adopt id me = read (adoptIn id me) := rfl

/-- What is said about the identity of a bot, in a state. -/
def announceIn (id : Nat) (w : World) : Process :=
  match w.bot? id with
  | some b =>
    match identity b with
    | .ok me => log (.identified me.username) done
    | .error f => raised f
  | none => raised (.noAttribute "Composer" "bot_info")

theorem announce_eq (id : Nat) : announce id = read (announceIn id) := rfl

/-- How a call ends that was made with a client, when the request has ended. -/
def callOutcome (client : Client) : Outcome → Outcome
  | .error f => .error f
  | .ok answer =>
    match identityFrom client answer with
    | .ok _ => .ok .null
    | .error f => .error f

end Bot

namespace Machine

open Process UpdateDispatch.Bot

variable {id i t : Nat} {m m' : Machine} {a b : Owner} {p q : Process}
  {o : Outcome} {w : World} {tasks : List Shared} {c : Client}

/-! ## Where processes are -/

/-- A call that waited for the request `t` goes on after the request has ended in `o`. -/
inductive Concluding (c : Client) (id : Nat) (w : World) (t : Nat) : Outcome → Process → Prop
  | woken {o : Outcome} :
      Concluding c id w t o (afterFetch id c t o)
  | adopting {answer : Json} {me : Identity}
      (hme : identityFrom c answer = .ok me)
      (hforgot : w.requestOf id ≠ some t) : Concluding c id w t (.ok answer) (adopt id me)
  | setting {answer : Json} {me : Identity}
      (hme : identityFrom c answer = .ok me)
      (hforgot : w.requestOf id ≠ some t) (hid : w.identityOf id = none) :
      Concluding c id w t (.ok answer)
        (write (World.modifyBot id fun b => { b with identity := some me }) (announce id))
  | keeping {answer : Json} {me : Identity}
      (hme : identityFrom c answer = .ok me)
      (hforgot : w.requestOf id ≠ some t) (hid : (w.identityOf id).isSome) :
      Concluding c id w t (.ok answer) (log .alreadyKnown (announce id))
  | announcing {answer : Json} {me : Identity}
      (hme : identityFrom c answer = .ok me)
      (hforgot : w.requestOf id ≠ some t) (hid : (w.identityOf id).isSome) :
      Concluding c id w t (.ok answer) (announce id)
  | announced {answer : Json} {me : Identity} {n : Notice}
      (hme : identityFrom c answer = .ok me)
      (hforgot : w.requestOf id ≠ some t) : Concluding c id w t (.ok answer) (log n done)
  | returned {o : Outcome} (hforgot : w.requestOf id ≠ some t) :
      Concluding c id w t o (ended (callOutcome c o))

/-- What the running process of an owner can be at. -/
inductive Running (id : Nat) (w : World) (tasks : List Shared) :
    Owner → Process → Prop
  | init {i : Nat} : Running id w tasks (.root i) (init id)
  | assign {i : Nat} {me : Identity} : Running id w tasks (.root i) (assign id me)
  | answer {i : Nat} {c : Client} :
      Running id w tasks (.root i) (answerWith c)
  | joining {i t : Nat} {c : Client} (hid : w.identityOf id = none)
      (hreq : w.requestOf id = some t) :
      Running id w tasks (.root i) (log .initializing (awaitFetch id c t))
  | requesting {i : Nat} {c : Client} (hid : w.identityOf id = none)
      (hreq : w.requestOf id = none) :
      Running id w tasks (.root i) (log .initializing (request id c))
  | starting {i : Nat} {c : Client} (hid : w.identityOf id = none)
      (hreq : w.requestOf id = none) : Running id w tasks (.root i) (request id c)
  | noting {i t : Nat} {c : Client} {ws : List (Owner × (Outcome → Process))}
      (hreq : w.requestOf id = none)
      (ht : tasks[t]? = some (.running ws)) :
      Running id w tasks (.root i) (noteRequest id c t)
  | awaiting {i t : Nat} {c : Client} (hreq : w.requestOf id = some t) :
      Running id w tasks (.root i) (awaitFetch id c t)
  | concluding {i t : Nat} {c : Client} {o : Outcome} {p : Process}
      (ht : tasks[t]? = some (.finished o)) (h : Concluding c id w t o p) :
      Running id w tasks (.root i) p
  | announcing {i : Nat} (hid : (w.identityOf id).isSome) :
      Running id w tasks (.root i) (announce id)
  | announced {i : Nat} {n : Notice} : Running id w tasks (.root i) (log n done)
  | returned {i : Nat} {o : Outcome} : Running id w tasks (.root i) (ended o)
  | fetching {t : Nat} {c : Client} : Running id w tasks (.shared t) c.fetch
  | suspended {t n : Nat} {o : Outcome} :
      Running id w tasks (.shared t) (pauses n (ended o))

/-- What an owner goes on with that has a turn. -/
inductive Queued (id : Nat) (tasks : List Shared) : Owner → Process → Prop
  | init {i : Nat} : Queued id tasks (.root i) (init id)
  | assign {i : Nat} {me : Identity} : Queued id tasks (.root i) (assign id me)
  | answer {i : Nat} {c : Client} :
      Queued id tasks (.root i) (answerWith c)
  | woken {i t : Nat} {c : Client} {o : Outcome}
      (ht : tasks[t]? = some (.finished o)) :
      Queued id tasks (.root i) (afterFetch id c t o)
  | fetching {t : Nat} {c : Client} : Queued id tasks (.shared t) c.fetch
  | suspended {t n : Nat} {o : Outcome} : Queued id tasks (.shared t) (pauses n (ended o))

theorem Queued.running (h : Queued id tasks a p) (w : World) :
    Running id w tasks a p := by
  cases h with
  | init => exact .init
  | assign => exact .assign
  | answer => exact .answer
  | woken ht => exact .concluding ht .woken
  | fetching => exact .fetching
  | suspended => exact .suspended

/-- Requests that have ended stay so. -/
theorem Queued.mono (h : Queued id tasks a p) {tasks' : List Shared}
    (hended : ∀ {t : Nat} {o}, tasks[t]? = some (Shared.finished o) →
      tasks'[t]? = some (.finished o)) :
    Queued id tasks' a p := by
  cases h with
  | init => exact .init
  | assign => exact .assign
  | answer => exact .answer
  | woken ht => exact .woken (hended ht)
  | fetching => exact .fetching
  | suspended => exact .suspended

/-- The bot exists, and there is a client. -/
structure Hosts (id : Nat) (w : World) : Prop where
  bot : ∃ b, w.bot? id = some b
  client : ∃ c, w.client = some c

/-- A request is under way. -/
def InFlight (m : Machine) (t : Nat) : Prop := ∃ waiters, m.tasks[t]? = some (.running waiters)

/-- The processes of a run in which `init` is called for a bot, and what they rely on. -/
structure Serving (id : Nat) (m : Machine) : Prop where
  hosts : Hosts id m.world
  running : ∀ {a p}, m.focus = some (a, p) → Running id m.world m.tasks a p
  queued : ∀ {t}, t ∈ m.ready → ∃ a p, t = .resume a p ∧ Queued id m.tasks a p
  waiters : ∀ {t ws a k}, m.tasks[t]? = some (.running ws) → (a, k) ∈ ws →
    ∃ i c, a = .root i ∧ k = afterFetch id c t
  request : ∀ {t}, m.world.requestOf id = some t → t + 1 = m.tasks.length
  flight : ∀ {t}, InFlight m t → t + 1 = m.tasks.length ∧
    (m.world.requestOf id = some t ∨ ∃ a c, m.focus = some (a, noteRequest id c t))

/-! ## Who has not ended -/

/-- Who waits for a shared task. -/
def awaiters : Shared → List Owner
  | .running ws => ws.map Prod.fst
  | .finished _ => []

/-- The owners that run, have a turn, or wait for a shared task. -/
def pending (m : Machine) : List Owner :=
  (m.focus.map Prod.fst).toList ++ (m.ready.map Turn.owner ++ m.tasks.flatMap awaiters)

/-- Nobody is in two places, and those who have not ended are somewhere. -/
structure Distinct (m : Machine) : Prop where
  nodup : (pending m).Nodup
  root : ∀ i, .root i ∈ pending m ↔ m.roots[i]? = some none
  shared : ∀ t, .shared t ∈ pending m ↔ InFlight m t

/-! ## What a step does -/

theorem Hosts.modifyBot (h : Hosts id w) (f : BotState → BotState) :
    Hosts id (w.modifyBot id f) where
  bot := by
    obtain ⟨b, hb⟩ := h.bot
    exact ⟨f b, by rw [World.bot?_modifyBot, hb]; rfl⟩
  client := h.client

theorem Hosts.identityOf_assign (h : Hosts id w) (me : Identity) :
    (w.modifyBot id fun b => { b with identity := some me }).identityOf id = some me := by
  obtain ⟨b, hb⟩ := h.bot
  rw [World.identityOf_modifyBot, hb]
  rfl

theorem requestOf_assign (me : Identity) :
    (w.modifyBot id fun b => { b with identity := some me }).requestOf id = w.requestOf id := by
  rw [World.requestOf_modifyBot, World.requestOf]

theorem Hosts.requestOf_note (h : Hosts id w) (t : Nat) :
    (w.modifyBot id fun b => { b with fetch := some t }).requestOf id = some t := by
  obtain ⟨b, hb⟩ := h.bot
  rw [World.requestOf_modifyBot, hb]
  rfl

theorem identityOf_note (t : Nat) :
    (w.modifyBot id fun b => { b with fetch := some t }).identityOf id = w.identityOf id := by
  rw [World.identityOf_modifyBot, World.identityOf]

theorem identityOf_forget (t : Nat) :
    (w.modifyBot id (forget t)).identityOf id = w.identityOf id := by
  rw [World.identityOf_modifyBot, World.identityOf]
  rfl

theorem requestOf_forget (t : Nat) : (w.modifyBot id (forget t)).requestOf id =
    if w.requestOf id = some t then none else w.requestOf id := by
  rw [World.requestOf_modifyBot, World.requestOf]
  rcases w.bot? id with _ | b <;> rfl

/-- The identity of the bot stays as it was, or it is assigned, or it is taken from a valid answer
while there is none. -/
inductive Identifies (id : Nat) (m : Machine) (p : Process) (w : World) : Prop
  | kept (h : w.identityOf id = m.world.identityOf id)
  | assigned {me : Identity} (hp : p = assign id me) (h : w.identityOf id = some me)
  | fetched {c : Client} {t : Nat} {answer : Json} {me : Identity}
      (hid : m.world.identityOf id = none) (ht : m.tasks[t]? = some (.finished (.ok answer)))
      (hme : identityFrom c answer = .ok me) (h : w.identityOf id = some me)

/-- The running process of `a` goes on, in a state `w` and with no change of the requests. -/
structure Proceeds (id : Nat) (m : Machine) (a : Owner) (p : Process) (w : World)
    (q : Process) : Prop where
  child : Child q p
  hosts : Hosts id w
  identifies : Identifies id m p w
  request : ∀ {t}, w.requestOf id = some t → m.world.requestOf id = some t ∨ InFlight m t
  flight : ∀ {t}, InFlight m t → w.requestOf id = some t
  running : Running id w m.tasks a q

/-- What a step does: someone takes a turn, goes on, makes a request, comes to wait for one,
returns from a call, or a request is suspended or ends. -/
inductive Moves (id : Nat) (m : Machine) : Machine → Prop
  | turn {a : Owner} {p : Process} {before after : List Turn} (hfocus : m.focus = none)
      (hready : m.ready = before ++ .resume a p :: after) (hp : Queued id m.tasks a p) :
      Moves id m { m with ready := before ++ after, focus := some (a, p) }
  | goesOn {a : Owner} {p q : Process} {w : World} (hfocus : m.focus = some (a, p))
      (h : Proceeds id m a p w q) :
      Moves id m { m with world := w, focus := some (a, q) }
  | requests {i : Nat} {c : Client} (hfocus : m.focus = some (.root i, request id c))
      (hreq : m.world.requestOf id = none) :
      Moves id m { m with
        focus := some (.root i, noteRequest id c m.tasks.length)
        tasks := m.tasks ++ [.running []]
        ready := m.ready ++ [.resume (.shared m.tasks.length) c.fetch] }
  | waits {i t : Nat} {c : Client} {ws : List (Owner × (Outcome → Process))}
      (hfocus : m.focus = some (.root i, awaitFetch id c t))
      (ht : m.tasks[t]? = some (.running ws)) :
      Moves id m { m.idle with
        tasks := m.tasks.set t (.running (ws ++ [(.root i, afterFetch id c t)])) }
  | returns {i : Nat} {o : Outcome} (hfocus : m.focus = some (.root i, ended o)) :
      Moves id m { m.idle with roots := m.roots.set i (some o) }
  | suspends {t n : Nat} {o : Outcome}
      (hfocus : m.focus = some (.shared t, pauses (n + 1) (ended o))) :
      Moves id m (m.idle.queue (.resume (.shared t) (pauses n (ended o))))
  | ends {t : Nat} {o : Outcome} {ws : List (Owner × (Outcome → Process))}
      (hfocus : m.focus = some (.shared t, ended o)) (ht : m.tasks[t]? = some (.running ws)) :
      Moves id m { m.idle with
        tasks := m.tasks.set t (.finished o)
        ready := m.ready ++ ws.map fun (a, k) => .resume a (k o) }

/-- A request that is under way is held by the bot, unless the running process is about to note
it. -/
theorem Serving.requestOf_eq (h : Serving id m) (hfocus : m.focus = some (a, p))
    (hp : ∀ c t, p ≠ noteRequest id c t) (ht : InFlight m t) : m.world.requestOf id = some t := by
  refine (h.flight ht).2.resolve_right ?_
  rintro ⟨b, c, hc⟩
  rw [hfocus] at hc
  cases hc
  exact hp c t rfl

/-- A process that goes on and does not touch the requests. -/
theorem Serving.proceeds (h : Serving id m) (hfocus : m.focus = some (a, p))
    (hchild : Child q p) (hp : ∀ c t, p ≠ noteRequest id c t) (hhosts : Hosts id w)
    (hid : Identifies id m p w) (hreq : w.requestOf id = m.world.requestOf id)
    (hq : Running id w m.tasks a q) : Proceeds id m a p w q where
  child := hchild
  hosts := hhosts
  identifies := hid
  request ht := .inl (hreq ▸ ht)
  flight ht := hreq.trans (h.requestOf_eq hfocus hp ht)
  running := hq

theorem Hosts.announceIn_eq (h : Hosts id w) (hid : (w.identityOf id).isSome) :
    ∃ n, announceIn id w = log n done := by
  obtain ⟨b, hb⟩ := h.bot
  rw [World.identityOf, hb] at hid
  obtain ⟨me, hme⟩ := Option.isSome_iff_exists.mp hid
  refine ⟨.identified me.username, ?_⟩
  rw [announceIn, hb]
  dsimp only
  rw [identity, show b.identity = some me from hme]

theorem Serving.proceeds_init (h : Serving id m) (hfocus : m.focus = some (.root i, init id)) :
    Proceeds id m (.root i) (init id) m.world (initIn id m.world) := by
  refine h.proceeds hfocus (.read ..) nofun h.hosts (.kept rfl) rfl ?_
  obtain ⟨b, hb⟩ := h.hosts.bot
  obtain ⟨c, hclient⟩ := h.hosts.client
  have hidentity : m.world.identityOf id = b.identity := by rw [World.identityOf, hb]; rfl
  have hrequest : m.world.requestOf id = b.fetch := by rw [World.requestOf, hb]; rfl
  unfold initIn
  rw [hb, hclient]
  dsimp only
  rcases hid : b.identity with _ | me
  · rcases hreq : b.fetch with _ | t
    · exact .requesting (hidentity.trans hid) (hrequest.trans hreq)
    · exact .joining (hidentity.trans hid) (hrequest.trans hreq)
  · exact .announcing (by rw [hidentity, hid]; rfl)

theorem conclude_cases (id : Nat) (c : Client) (o : Outcome) :
    conclude id c o = ended (callOutcome c o) ∨ ∃ answer me, o = .ok answer ∧
      identityFrom c answer = .ok me ∧ conclude id c o = adopt id me := by
  rcases o with f | answer
  · exact .inl rfl
  · rw [conclude, callOutcome]
    rcases hme : identityFrom c answer with f | me
    · exact .inl rfl
    · exact .inr ⟨answer, me, rfl, hme, rfl⟩

theorem write_ne_noteRequest {f : World → World} (hp : ∀ c t, p ≠ awaitFetch id c t)
    (c : Client) (t : Nat) : write f p ≠ noteRequest id c t := by
  intro heq
  injection heq with _ heq
  exact hp c t heq

theorem log_ne_noteRequest (n : Notice) (c : Client) (t : Nat) : log n p ≠ noteRequest id c t := by
  intro heq
  injection heq with heq _
  have hnotices := congrArg (fun f => (f { client := none, me := default }).notices) heq
  cases hnotices

theorem conclude_ne_awaitFetch (o : Outcome) (c' : Client) (t : Nat) :
    conclude id c o ≠ awaitFetch id c' t := by
  rcases conclude_cases id c o with hend | ⟨answer, me, -, -, hadopt⟩
  · rw [hend]
    rcases callOutcome c o with f | v <;> nofun
  · rw [hadopt]
    nofun

theorem done_ne_awaitFetch (c : Client) (t : Nat) : done ≠ awaitFetch id c t := by
  rintro ⟨⟩

theorem done_eq_ended {answer : Json} {me : Identity}
    (hme : identityFrom c answer = .ok me) :
    done = ended (callOutcome c (.ok answer)) := by
  rw [callOutcome, hme]
  rfl

/-- When its request has ended, a call forgets it before anything else. -/
theorem Serving.proceeds_woken (h : Serving id m)
    (hfocus : m.focus = some (.root i, afterFetch id c t o))
    (ht : m.tasks[t]? = some (.finished o)) :
    ∃ w q, m.advance (.root i) (afterFetch id c t o) =
        { m with world := w, focus := some (.root i, q) } ∧
      Proceeds id m (.root i) (afterFetch id c t o) w q ∧ Concluding c id w t o q := by
  have hflies : ∀ {t'}, InFlight m t' → t' ≠ t := by
    rintro t' ⟨ws, hws⟩ rfl
    rw [ht] at hws
    cases hws
  refine ⟨_, _, rfl, ?_⟩
  have hforgot : (m.world.modifyBot id (forget t)).requestOf id ≠ some t := by
    rw [requestOf_forget]
    split
    · simp
    · assumption
  have hq : Concluding c id (m.world.modifyBot id (forget t)) t o (conclude id c o) := by
    rcases conclude_cases id c o with hend | ⟨answer, me, rfl, hme, hadopt⟩
    · exact hend ▸ .returned hforgot
    · exact hadopt ▸ .adopting hme hforgot
  refine ⟨⟨.write .., h.hosts.modifyBot _, .kept (identityOf_forget t), fun hreq => ?_,
    fun hrun => ?_, .concluding ht hq⟩, hq⟩
  · rw [requestOf_forget] at hreq
    split at hreq
    · cases hreq
    · exact .inl hreq
  · have hreq := h.requestOf_eq hfocus (write_ne_noteRequest (conclude_ne_awaitFetch o)) hrun
    rw [requestOf_forget, hreq, if_neg]
    exact fun heq => hflies hrun (Option.some.inj heq)

/-- A call that goes on after its request has ended comes to its own end within the turn. -/
theorem Serving.proceeds_concluding (h : Serving id m) (hfocus : m.focus = some (.root i, p))
    (ht : m.tasks[t]? = some (.finished o)) (hp : Concluding c id m.world t o p) :
    (p = ended (callOutcome c o) ∧ m.world.requestOf id ≠ some t) ∨
      ∃ w q, m.advance (.root i) p = { m with world := w, focus := some (.root i, q) } ∧
        Proceeds id m (.root i) p w q ∧ Concluding c id w t o q := by
  cases hp with
  | woken => exact .inr (h.proceeds_woken hfocus ht)
  | @adopting answer me hme hforgot =>
    have hq : Concluding c id m.world t (.ok answer) (adoptIn id me m.world) := by
      obtain ⟨b, hb⟩ := h.hosts.bot
      have hidentity : m.world.identityOf id = b.identity := by rw [World.identityOf, hb]; rfl
      unfold adoptIn
      rw [hb]
      dsimp only
      rcases hid : b.identity with _ | you
      · exact .setting hme hforgot (hidentity.trans hid)
      · exact .keeping hme hforgot (by rw [hidentity, hid]; rfl)
    exact .inr ⟨_, _, rfl, h.proceeds hfocus (.read (adoptIn id me) _) nofun h.hosts (.kept rfl) rfl
      (.concluding ht hq), hq⟩
  | @setting answer me hme hforgot hid =>
    have hset := h.hosts.identityOf_assign me
    have hq : Concluding c id _ t (.ok answer) (announce id) := .announcing hme
      (requestOf_assign (w := m.world) me ▸ hforgot) (by rw [hset]; rfl)
    exact .inr ⟨_, _, rfl, h.proceeds hfocus (.write ..) (write_ne_noteRequest nofun)
      (h.hosts.modifyBot _) (.fetched hid ht hme hset)
      (requestOf_assign me) (.concluding ht hq), hq⟩
  | @keeping answer me hme hforgot hid =>
    have hq : Concluding c id (m.world.log .alreadyKnown) t (.ok answer) (announce id) :=
      .announcing hme hforgot hid
    exact .inr ⟨_, _, rfl, h.proceeds hfocus (.write ..) (write_ne_noteRequest nofun)
      ⟨h.hosts.bot, h.hosts.client⟩ (.kept rfl) rfl (.concluding ht hq), hq⟩
  | @announcing answer me hme hforgot hid =>
    obtain ⟨n, hn⟩ := h.hosts.announceIn_eq hid
    have hq : Concluding c id m.world t (.ok answer) (announceIn id m.world) :=
      hn ▸ .announced hme hforgot
    exact .inr ⟨_, _, rfl, h.proceeds hfocus (.read (announceIn id) _) nofun h.hosts (.kept rfl) rfl
      (.concluding ht hq), hq⟩
  | @announced answer me n hme hforgot =>
    have hq : Concluding c id (m.world.log n) t (.ok answer) done :=
      done_eq_ended hme ▸ .returned hforgot
    exact .inr ⟨_, _, rfl, h.proceeds hfocus (.write ..) (write_ne_noteRequest nofun)
      ⟨h.hosts.bot, h.hosts.client⟩ (.kept rfl) rfl (.concluding ht hq), hq⟩
  | returned hforgot => exact .inl ⟨rfl, hforgot⟩

theorem fetch_eq (c : Client) : ∃ o, c.fetch =
    write (fun w => { w with fetches := w.fetches + 1 }) (pauses c.delay (ended o)) := by
  unfold Client.fetch
  rcases c.throws with _ | t
  · exact ⟨.ok c.me, rfl⟩
  · exact ⟨.error (t.fault none), rfl⟩

theorem pauses_ne_awaitFetch (n : Nat) (o : Outcome) (c : Client) (t : Nat) :
    pauses n (ended o) ≠ awaitFetch id c t := by
  cases n with
  | zero => cases o <;> nofun
  | succ n => nofun

theorem mem_pending_of_focus (hfocus : m.focus = some (a, p)) : a ∈ pending m := by
  rw [pending, hfocus]
  exact List.mem_append_left _ List.mem_cons_self

theorem finish_shared {ws : List (Owner × (Outcome → Process))}
    (ht : m.tasks[t]? = some (.running ws)) : m.finish (.shared t) o = { m.idle with
      tasks := m.tasks.set t (.finished o)
      ready := m.ready ++ ws.map fun (a, k) => .resume a (k o) } := by
  rw [finish, ht]

/-- A request that was made is noted. -/
theorem Serving.moves_noting (h : Serving id m) {ws : List (Owner × (Outcome → Process))}
    (hfocus : m.focus = some (.root i, noteRequest id c t))
    (ht : m.tasks[t]? = some (.running ws)) :
    Moves id m (m.advance (.root i) (noteRequest id c t)) := by
  have hnoted := h.hosts.requestOf_note t
  refine .goesOn hfocus ⟨.write .., h.hosts.modifyBot _, .kept (identityOf_note t),
    fun hreq => ?_, fun hrun => ?_, .awaiting hnoted⟩
  · rw [hnoted] at hreq
    cases hreq
    exact .inr ⟨ws, ht⟩
  · -- both requests are the last one
    have hlast := (h.flight hrun).1
    have hlast' := (h.flight ⟨ws, ht⟩).1
    rw [hnoted]
    congr
    omega

/-- A request is waited for, or what follows goes on at once if it is over. -/
theorem Serving.moves_awaiting (h : Serving id m)
    (hfocus : m.focus = some (.root i, awaitFetch id c t)) (hreq : m.world.requestOf id = some t) :
    Moves id m (m.advance (.root i) (awaitFetch id c t)) := by
  rw [awaitFetch_eq] at hfocus ⊢
  have hlt : t < m.tasks.length := by
    have := h.request hreq
    omega
  rcases ht : m.tasks[t]? with _ | (ws | o)
  · rw [List.getElem?_eq_none_iff] at ht
    omega
  · have hwaits : Moves id m _ := .waits hfocus ht
    rwa [Machine.advance, ht]
  · have hwoken : Concluding c id m.world t o (afterFetch id c t o) := .woken
    have hgoes := Moves.goesOn hfocus (h.proceeds hfocus (.await ..) (fun _ _ => by rintro ⟨⟩)
      h.hosts (.kept rfl) rfl (.concluding ht hwoken))
    rwa [Machine.advance, ht]

/-- The step of a running process. -/
theorem Serving.moves_advance (h : Serving id m) (hd : Distinct m)
    (hfocus : m.focus = some (a, p)) : Moves id m (m.advance a p) := by
  have hlogs : ∀ {n q i}, p = log n q → a = .root i →
      Running id (m.world.log n) m.tasks (.root i) q → Moves id m (m.advance a p) := by
    rintro n q i rfl rfl hq
    exact .goesOn hfocus (h.proceeds hfocus (.write ..) (log_ne_noteRequest n)
      ⟨h.hosts.bot, h.hosts.client⟩ (.kept rfl) rfl hq)
  have hends : ∀ {i o}, a = .root i → p = ended o → Moves id m (m.advance a p) := by
    rintro i o rfl rfl
    have hreturn : Moves id m _ := .returns hfocus
    cases o <;> exact hreturn
  cases h.running hfocus with
  | init => exact .goesOn hfocus (h.proceeds_init hfocus)
  | @assign i me =>
    exact .goesOn hfocus (h.proceeds hfocus (.write ..) (write_ne_noteRequest done_ne_awaitFetch)
      (h.hosts.modifyBot _) (.assigned rfl (h.hosts.identityOf_assign me)) (requestOf_assign me)
      (.returned (o := .ok .null)))
  | @answer i c =>
    exact .goesOn hfocus (h.proceeds hfocus (.write ..) (write_ne_noteRequest done_ne_awaitFetch)
      ⟨h.hosts.bot, c, rfl⟩ (.kept rfl) rfl (.returned (o := .ok .null)))
  | joining hid hreq => exact hlogs rfl rfl (.awaiting hreq)
  | requesting hid hreq => exact hlogs rfl rfl (.starting hid hreq)
  | starting hid hreq => exact .requests hfocus hreq
  | noting _ ht => exact h.moves_noting hfocus ht
  | awaiting hreq => exact h.moves_awaiting hfocus hreq
  | concluding ht hp =>
    rcases h.proceeds_concluding hfocus ht hp with ⟨hp, -⟩ | ⟨w, q, heq, hproceeds, -⟩
    · exact hends rfl hp
    · exact heq ▸ .goesOn hfocus hproceeds
  | announcing hid =>
    obtain ⟨n, hn⟩ := h.hosts.announceIn_eq hid
    refine .goesOn hfocus
      (h.proceeds hfocus (.read (announceIn id) _) (fun _ _ => by rintro ⟨⟩) h.hosts (.kept rfl) rfl
        ?_)
    exact (congrArg (Running id m.world m.tasks _) hn).mpr .announced
  | announced => exact hlogs rfl rfl (.returned (o := .ok .null))
  | returned => exact hends rfl rfl
  | @fetching t c =>
    obtain ⟨o, hfetch⟩ := fetch_eq c
    rw [hfetch] at hfocus ⊢
    exact .goesOn hfocus (h.proceeds hfocus (.write ..)
      (write_ne_noteRequest (pauses_ne_awaitFetch _ o))
      ⟨h.hosts.bot, h.hosts.client⟩ (.kept rfl) rfl .suspended)
  | @suspended t n o =>
    cases n with
    | zero =>
      obtain ⟨ws, ht⟩ := (hd.shared t).mp (mem_pending_of_focus hfocus)
      have hend : Moves id m _ := .ends hfocus ht
      rw [← finish_shared ht] at hend
      cases o <;> exact hend
    | succ n => exact .suspends hfocus

/-- What a step can do, whose turn it ever is. -/
theorem Serving.moves (h : Serving id m) (hd : Distinct m) (hnext : Next m m') :
    Moves id m m' := by
  cases hnext with
  | advance hfocus => exact h.moves_advance hd hfocus
  | @turn before after t hfocus hready =>
    obtain ⟨a, p, rfl, hp⟩ := h.queued (t := t) (by rw [hready]; simp)
    exact .turn hfocus hready hp

end Machine

end UpdateDispatch
