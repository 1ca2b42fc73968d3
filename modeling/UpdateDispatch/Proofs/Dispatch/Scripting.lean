import UpdateDispatch.Proofs.Dispatch.Access
import UpdateDispatch.Proofs.Dispatch.Likeness
import UpdateDispatch.Dispatch.Bot

/-!
# Relations that scripts keep

Whatever scripts and functions of the context do is put together from a few forms of processes. A
relation of processes that is closed under these forms (`Process.Acting`) holds of what every script
does (`Process.Acting.script`), and of what follows a function of the context
(`Process.Acting.ask`) and a choice (`Process.Acting.pick`). The two processes may be of two runs,
whose contexts correspond. A property of the processes of one run is a relation that does not look
at the other one.

Not every relation is kept by all scripts. `Usage` says which contexts correspond, and which values,
registrations and notices a relation admits.
-/

namespace UpdateDispatch

/-! ## Faults and events of two runs -/

/-- The same fault in two runs: the very same, or a failure with a context that corresponds. -/
inductive Fault.Same (C : Nat → Nat → Prop) : Fault → Fault → Prop
  | refl (f : Fault) : Same C f f
  | failure {f f' : Fault} {x x' : Option Nat} (hf : Same C f f') (hx : Option.Rel C x x') :
      Same C (.failure f x) (.failure f' x')
  | failureValue (v : Json) {x x' : Option Nat} (hx : Option.Rel C x x') :
      Same C (.failureValue v x) (.failureValue v x')

/-- The same outcome in two runs. -/
inductive Outcome.Same (C : Nat → Nat → Prop) : Outcome → Outcome → Prop
  | ok (v : Json) : Same C (.ok v) (.ok v)
  | error {f f' : Fault} (h : f.Same C f') : Same C (.error f) (.error f')

/-- Sides that ended the same way in two runs. -/
structure Settled.Same (C : Nat → Nat → Prop) (s s' : Settled) : Prop where
  left : Outcome.Same C s.left s'.left
  right : Outcome.Same C s.right s'.right
  leftFirst : s'.leftFirst = s.leftFirst

/-- The same event in two runs. -/
inductive Event.Same (C : Nat → Nat → Prop) : Event → Event → Prop
  | refl (e : Event) : Same C e e
  | caught {f f' : Fault} (hf : f.Same C f') : Same C (.caught f) (.caught f')
  | race {f f' g g' : Option Fault} (hf : Option.Rel (Fault.Same C) f f')
      (hg : Option.Rel (Fault.Same C) g g') : Same C (.race f g) (.race f' g')
  | failed {f f' : Fault} (hf : f.Same C f') (id : Json) : Same C (.failed f id) (.failed f' id)

/-- The same line of the log in two runs. -/
inductive Notice.Same (C : Nat → Nat → Prop) : Notice → Notice → Prop
  | refl (n : Notice) : Same C n n
  | forkFailed {f f' : Fault} (hf : f.Same C f') : Same C (.forkFailed f) (.forkFailed f')
  | boundaryCaught {f f' : Fault} (hf : f.Same C f') :
      Same C (.boundaryCaught f) (.boundaryCaught f')
  | failed {f f' : Fault} (hf : f.Same C f') (id : Json) : Same C (.failed id f) (.failed id f')

section Same

variable {C : Nat → Nat → Prop}

theorem Outcome.Same.refl (o : Outcome) : Outcome.Same C o o := by
  cases o with
  | ok v => exact .ok v
  | error f => exact .error (.refl f)

theorem Settled.Same.refl (s : Settled) : s.Same C s := ⟨.refl _, .refl _, rfl⟩

theorem Outcome.Same.fault? {o o' : Outcome} (h : Outcome.Same C o o') :
    Option.Rel (Fault.Same C) (Outcome.fault? o) (Outcome.fault? o') := by
  cases h with
  | ok v => exact .none
  | error h => exact .some h

theorem throw_same (t : Throw) {x x' : Option Nat} (hx : Option.Rel C x x') :
    (t.fault x).Same C (t.fault x') := by
  unfold Throw.fault
  split
  · exact .refl _
  · exact .failureValue _ hx
  · exact .refl _

end Same

/-! Where only equal contexts correspond, so do only equal faults, events and notices. -/

section Equal

variable {C : Nat → Nat → Prop} (hC : ∀ {x x'}, C x x' → x = x')

include hC

theorem rel_eq {x x' : Option Nat} (h : Option.Rel C x x') : x = x' := by
  cases h with
  | none => rfl
  | some h => exact congrArg some (hC h)

theorem Fault.Same.eq {f f' : Fault} (h : f.Same C f') : f = f' := by
  induction h with
  | refl f => rfl
  | failure _ hx ih => rw [ih, rel_eq hC hx]
  | failureValue v hx => rw [rel_eq hC hx]

theorem Fault.Same.rel_eq {f f' : Option Fault} (h : Option.Rel (Fault.Same C) f f') : f = f' := by
  cases h with
  | none => rfl
  | some h => exact congrArg some (h.eq hC)

theorem Event.Same.eq {e e' : Event} (h : e.Same C e') : e = e' := by
  cases h with
  | refl e => rfl
  | caught hf => rw [hf.eq hC]
  | race hf hg => rw [Fault.Same.rel_eq hC hf, Fault.Same.rel_eq hC hg]
  | failed hf id => rw [hf.eq hC]

theorem Notice.Same.eq {n n' : Notice} (h : n.Same C n') : n = n' := by
  cases h with
  | refl n => rfl
  | forkFailed hf | boundaryCaught hf | failed hf id => rw [hf.eq hC]

end Equal

/-! ## What is admitted -/

/-- The contexts of two runs that correspond, and what is admitted of scripts: the values that they
note, the registrations that they make, and the notices that are logged. -/
structure Usage where
  contexts : Nat → Nat → Prop := Eq
  notes : Json → Prop := fun _ => True
  steps : Step → Prop := fun _ => True
  logs : Notice → Prop := fun _ => True

/-- Events of scripts that note only what is admitted. No script accesses a container by itself. -/
def Event.Admitted (U : Usage) : Event → Prop
  | .note v => U.notes v
  | .accessed _ => False
  | _ => True

/-- An action that notes and registers only what is admitted. -/
structure Action.Admitted (U : Usage) (a : Action) : Prop where
  notes : ∀ {v}, a = .note v → U.notes v
  steps : ∀ {s}, a = .step s → U.steps s

theorem Action.admitted (a : Action) : a.Admitted {} := ⟨fun _ => trivial, fun _ => trivial⟩

/-- A function of the context that notes only what is admitted. -/
def Probe.Admitted (U : Usage) (p : Probe Condition) : Prop := ∀ v, p.note = some v → U.notes v

theorem Probe.admitted (p : Probe Condition) : p.Admitted {} := fun _ _ => trivial

/-- Frames that hold the same in two runs, with continuations that correspond by `Next`. -/
structure Frame.Same (C : Nat → Nat → Prop) (Next : Process → Process → Prop) (e e' : Frame) :
    Prop where
  context : Option.Rel C e.context e'.context
  next : Option.Rel Next e.next e'.next
  failure : Option.Rel (Fault.Same C) e.failure e'.failure

/-- Choices that ask the same function of the context, and then build what corresponds by `B`. -/
inductive Choice.Paired (U : Usage) (B : Build (List Middleware) → Build (List Middleware) → Prop) :
    Choice → Choice → Prop
  | branch {p : Probe Condition} {negated : Bool} {yes no yes' no' : List Middleware}
      (hp : p.Admitted U) (hyes : B (pure yes) (pure yes')) (hno : B (pure no) (pure no')) :
      Paired U B (.branch p negated yes no) (.branch p negated yes' no')
  | route {router : Probe Condition} {handlers handlers' : List (Json × Option (List Middleware))}
      {fallback fallback' : List Middleware} (hp : router.Admitted U)
      (hfallback : B (pure fallback) (pure fallback'))
      (hkey : ∀ key, B (pure ((handlerFor key handlers).getD fallback))
        (pure ((handlerFor key handlers').getD fallback'))) :
      Paired U B (.route router handlers fallback) (.route router handlers' fallback')
  | table {factory : Probe Condition} {specs : List (String × Spec)} {default : Spec}
      (hp : factory.Admitted U)
      (hspec : ∀ v, B (specFor v specs default).build (specFor v specs default).build) :
      Paired U B (.table factory specs default) (.table factory specs default)

theorem rel_self {α : Type} {R : α → α → Prop} {a : Option α} (h : ∀ b, a = some b → R b b) :
    Option.Rel R a a := by
  cases a with
  | none => exact .none
  | some a => exact .some (h a rfl)

theorem Frame.same_self {C : Nat → Nat → Prop} {Next : Process → Process → Prop} {e : Frame}
    (hC : ∀ x, C x x) (hnext : ∀ p, e.next = some p → Next p p) : e.Same C Next e :=
  ⟨rel_self fun x _ => hC x, rel_self hnext, rel_self fun f _ => .refl f⟩

namespace Process

variable {U : Usage} {S Next : Process → Process → Prop} {p p' q q' : Process} {e e' : Frame}
  {x x' : Nat}

/-! ## Functions of the context -/

/-- A relation that functions of the context keep. -/
structure Answering (U : Usage) (S : Process → Process → Prop) : Prop where
  value : ∀ v, S (value v) (value v)
  raised : ∀ {f f'}, Fault.Same U.contexts f f' → S (raised f) (raised f')
  pause : ∀ {p p'}, S p p' → S (pause p) (pause p')
  record : ∀ {e e' p p'}, Event.Same U.contexts e e' → e.Admitted U → S p p' →
    S (record e p) (record e' p')
  context : ∀ {x x'} {k k' : World → Process}, U.contexts x x' →
    (∀ w w', w'.context x' = w.context x → S (k w) (k' w')) → S (read k) (read k')
  setContext : ∀ {x x' p p'}, U.contexts x x' → ∀ c, S p p' →
    S (write (World.setContext x c) p) (write (World.setContext x' c) p')

namespace Answering

variable (h : Answering U S)

include h

theorem refuses (f : Fault) : S (.raised f) (.raised f) := h.raised (.refl f)

theorem pauses (hp : S p p') (n : Nat) : S (pauses n p) (pauses n p') := by
  induction n with
  | zero => exact hp
  | succ n ih => exact h.pause ih

theorem answer (p : Probe Condition) (hx : U.contexts x x') : S (p.answer x) (p.answer x') := by
  unfold Probe.answer
  split
  · refine h.context hx fun w w' hw => ?_
    rw [hw]
    split
    · exact h.setContext hx _ (h.value _)
    · exact h.refuses _
  · exact h.value _
  · refine h.context hx fun w w' hw => ?_
    rw [hw]
    split
    · split <;> exact h.value _
    · exact h.refuses _

theorem result (p : Probe Condition) (hx : U.contexts x x') : S (p.result x) (p.result x') := by
  unfold Probe.result
  split
  · exact h.raised (throw_same _ (.some hx))
  · exact h.answer p hx

/-- A function of the context, up to its end. -/
theorem asked {p : Probe Condition} (hp : p.Admitted U) (hx : U.contexts x x') :
    S (p.asked x) (p.asked x') := by
  refine h.pauses ?_ _
  unfold Probe.noted
  split
  · next v hnote => exact h.record (.refl _) (hp v hnote) (h.result p hx)
  · exact h.result p hx

end Answering

/-! ## Scripts -/

/-- A continuation that is called twice at once, and what became of both calls. -/
def twice (next : Process) : Process :=
  both next next fun s => record (.race (Outcome.fault? s.left) (Outcome.fault? s.right))

/-- A relation that scripts keep. -/
structure Acting (U : Usage) (Next S : Process → Process → Prop) : Prop extends Answering U S where
  deferred : ∀ {p p'}, S p p' → S (deferred p) (deferred p')
  log : ∀ {n n' p p'}, Notice.Same U.contexts n n' → U.logs n' → S p p' → S (log n p) (log n' p')
  client : ∀ {k k' : World → Process}, (∀ w w', w'.client = w.client → S (k w) (k' w')) →
    S (read k) (read k')
  andThen : ∀ {p p'} {k k' : Outcome → Process}, S p p' →
    (∀ o o', Outcome.Same U.contexts o o' → S (k o) (k' o')) → S (p.andThen k) (p'.andThen k')
  thenCalled : ∀ {p p' q q'}, S p p' → S q q' → S (p.thenCalled q) (p'.thenCalled q')
  dropping : ∀ {p p'}, S p p' → S (p.onCall dropping) (p'.onCall dropping)
  registering : ∀ {s}, U.steps s → S (registering s) (registering s)
  next : ∀ {p p'}, Next p p' → S p p'
  missing : ∀ f, Next (.raised f) (.raised f)
  twice : ∀ {p p'}, Next p p' → S (twice p) (twice p')

namespace Acting

variable (h : Acting U Next S)

include h

theorem done : S done done := h.value .null

theorem note {e e' : Event} (he : e.Same U.contexts e') (hadmitted : e.Admitted U) :
    S (Process.record e) (Process.record e') := h.record he hadmitted h.done

theorem followedBy (hp : S p p') (hq : S q q') : S (p.followedBy q) (p'.followedBy q') :=
  h.andThen hp fun o o' ho => by
    cases ho with
    | ok v => exact hq
    | error hf => exact h.raised hf

theorem proceed (he : e.Same U.contexts Next e') : Next e.proceed e'.proceed := by
  unfold Frame.proceed
  have hnext := he.next
  generalize e.next = next at hnext
  generalize e'.next = next' at hnext
  cases hnext with
  | none => exact h.missing _
  | some hnext => exact hnext

theorem withContext (he : e.Same U.contexts Next e') {member : String}
    {k k' : Nat → Context → Process} (hk : ∀ {x x'}, U.contexts x x' → ∀ c, S (k x c) (k' x' c)) :
    S (e.withContext member k) (e'.withContext member k') := by
  unfold Frame.withContext
  have hcontext := he.context
  generalize e.context = x at hcontext
  generalize e'.context = x' at hcontext
  cases hcontext with
  | none => exact h.refuses _
  | some hx =>
    refine h.context hx fun w w' hw => ?_
    rw [hw]
    exact hk hx _

theorem withValue (he : e.Same U.contexts Next e') {α : Type} {member : String}
    {f : Context → Except Fault α} {k : α → Process} (hk : ∀ a, S (k a) (k a)) :
    S (e.withValue member f k) (e'.withValue member f k) :=
  h.withContext he fun _ c => by
    split
    · exact hk _
    · exact h.refuses _

theorem reply (c : Context) (text : Json) (other : List (String × Json)) :
    S (Process.reply c text other) (Process.reply c text other) := by
  have hcall : ∀ (client : Client) (payload : Json),
      S (client.call "sendMessage" payload) (client.call "sendMessage" payload) := by
    intro client payload
    refine h.record (.refl _) trivial ?_
    split
    · exact h.refuses _
    · exact h.value _
  unfold Process.reply
  split
  · exact h.refuses _
  refine h.client fun w w' hw => ?_
  rw [hw]
  split
  · exact h.refuses _
  split
  · exact h.refuses _
  split
  · exact h.refuses _
  · exact hcall _ _

theorem noteFailure (he : e.Same U.contexts Next e') :
    S (Process.noteFailure e) (Process.noteFailure e') := by
  unfold Process.noteFailure
  have hfailure := he.failure
  generalize e.failure = f at hfailure
  generalize e'.failure = f' at hfailure
  cases hfailure with
  | none => exact h.refuses _
  | some hf =>
    refine h.withContext he fun _ c => ?_
    split
    · exact h.note (.failed hf _) trivial
    · exact h.refuses _

theorem throwCause {f f' : Option Fault} (hf : Option.Rel (Fault.Same U.contexts) f f') :
    S (Process.throwCause f) (Process.throwCause f') := by
  cases hf with
  | none => exact h.refuses _
  | some hf =>
    cases hf with
    | refl f =>
      unfold Process.throwCause
      split <;> exact h.refuses _
    | failure hf _ => exact h.raised hf
    | failureValue v _ => exact h.refuses _

/-- One action, with one case for each form of it. -/
theorem action (he : e.Same U.contexts Next e') {a : Action} (ha : a.Admitted U) :
    S (a.call e) (a.call e') := by
  have hproceed : S e.proceed e'.proceed := h.next (h.proceed he)
  cases a with
  | note v => exact h.note (.refl _) (ha.notes rfl)
  | next => exact hproceed
  | nextDropped => exact h.dropping hproceed
  | nextCaught =>
    refine h.deferred (h.andThen hproceed fun o o' ho => ?_)
    cases ho with
    | ok v => exact h.done
    | error hf => exact h.note (.caught hf) trivial
  | nextTwice => exact h.deferred (h.twice (h.proceed he))
  | pause count => exact h.deferred (h.pauses h.done count)
  | throw t => exact h.raised (throw_same t he.context)
  | noteMatch =>
    simp only [Action.call]
    exact h.withContext he fun _ c => h.note (.refl _) trivial
  | setMatch v =>
    simp only [Action.call]
    exact h.withContext he fun hx c => h.setContext hx _ h.done
  | setField key v =>
    simp only [Action.call]
    refine h.withContext he fun hx c => ?_
    split
    · exact h.setContext hx _ h.done
    · exact h.refuses _
  | noteField key => exact h.withValue he fun v => h.note (.refl _) trivial
  | noteAccessor name => exact h.withValue he fun m => h.note (.refl _) trivial
  | noteFilter query => exact h.withValue he fun b => h.note (.refl _) trivial
  | reply text other =>
    refine h.deferred (h.withContext he fun _ c => h.andThen (h.reply c text other) ?_)
    intro o o' ho
    cases ho with
    | ok v => exact h.note (.refl _) trivial
    | error hf => exact h.raised hf
  | step s => exact h.registering (ha.steps rfl)
  | rethrow =>
    simp only [Action.call]
    have hfailure := he.failure
    generalize e.failure = f at hfailure
    generalize e'.failure = f' at hfailure
    cases hfailure with
    | none => exact h.refuses _
    | some hf => exact h.raised hf
  | throwCause => exact h.throwCause he.failure
  | noteFailure => exact h.noteFailure he

/-- A script that notes and registers only what is admitted. -/
theorem script (he : e.Same U.contexts Next e') {s : Script} (hs : ∀ a ∈ s.actions, a.Admitted U) :
    S (s.call e) (s.call e') := by
  obtain ⟨actions, plain⟩ := s
  have hrun : S (Action.runAll e actions) (Action.runAll e' actions) := by
    induction actions with
    | nil => exact h.done
    | cons a rest ih =>
      obtain ⟨ha, hrest⟩ := List.forall_mem_cons.mp hs
      exact h.followedBy (h.action he ha) (ih hrest)
  have hcall : S (Action.callAll e actions) (Action.callAll e' actions) := by
    clear hrun
    induction actions with
    | nil => exact h.done
    | cons a rest ih =>
      obtain ⟨ha, hrest⟩ := List.forall_mem_cons.mp hs
      exact h.thenCalled (h.action he ha) (ih hrest)
  unfold Script.call
  split
  · exact hcall
  · exact h.deferred hrun

/-! ## Links and updates -/

/-- A function of the context, and what follows when it has answered. -/
theorem ask {p : Probe Condition} (hp : p.Admitted U) (hx : U.contexts x x')
    {k k' : Json → Process} (hk : ∀ v, S (k v) (k' v)) : S (p.ask x k) (p.ask x' k') := by
  rw [p.ask_eq, p.ask_eq]
  refine h.andThen (h.asked hp hx) fun o o' ho => ?_
  cases ho with
  | ok v => exact hk v
  | error hf => exact h.raised hf

/-- A choice, and what follows when it is made. -/
theorem pick {B : Build (List Middleware) → Build (List Middleware) → Prop} {c c' : Choice}
    (hc : c.Paired U B c') (hx : U.contexts x x') (k k' : Build (List Middleware) → Process)
    (hk : ∀ b b', B b b' → S (k b) (k' b')) : S (c.pick x k) (c'.pick x' k') := by
  cases hc with
  | branch hp hyes hno =>
    refine h.ask hp hx fun v => hk _ _ ?_
    split
    · exact hyes
    · exact hno
  | route hp hfallback hkey =>
    refine h.ask hp hx fun key => ?_
    split
    · exact hk _ _ hfallback
    split
    · exact hk _ _ (hkey _)
    · exact h.refuses _
  | table hp hspec =>
    refine h.ask hp hx fun v => ?_
    split
    · exact hk _ _ (hspec _)
    · exact h.refuses _

omit h in
/-- A choice keeps a property if what follows each of its builds does. -/
theorem pick_alone {P : Process → Prop} {B : Build (List Middleware) → Prop} {c : Choice}
    (h : Acting U Next fun p _ => P p) (hc : c.Paired U (fun b _ => B b) c)
    (hx : U.contexts x x) {k : Build (List Middleware) → Process} (hk : ∀ b, B b → P (k b)) :
    P (c.pick x k) :=
  pick h hc hx k k fun b _ hb => hk b hb

/-- The end of a fork. -/
theorem joined (hlogs : ∀ n, n.level ≠ .critical → U.logs n) {s s' : Settled}
    (hs : s.Same U.contexts s') : S (joined s) (joined s') := by
  obtain ⟨left, right, first⟩ := s
  obtain ⟨left', right', first'⟩ := s'
  obtain ⟨hleft, hright, rfl⟩ := hs
  cases hleft with
  | ok v =>
    cases hright with
    | ok v' => exact h.done
    | error hg => exact h.raised hg
  | error hf =>
    cases hright with
    | ok v => exact h.raised hf
    | error hg =>
      unfold Process.joined
      dsimp only
      split
      · exact h.log (.forkFailed hg) (hlogs _ nofun) (h.raised hf)
      · exact h.log (.forkFailed hf) (hlogs _ nofun) (h.raised hg)

/-- What a boundary does when its chain has ended. It clears its mark before its handler is called
with the failure of the chain. -/
theorem afterChain (i i' : Nat) (next next' : Process)
    (hlogs : ∀ n, n.level ≠ .critical → U.logs n) {handler : Script}
    (hhandler : ∀ a ∈ handler.actions, a.Admitted U) (hx : U.contexts x x')
    (hresume : Next (resume i) (resume i'))
    (hclear : ∀ {p p'}, S p p' →
      S (write (World.setMark i false) p) (write (World.setMark i' false) p'))
    (hrest : S (restIfMarked i next) (restIfMarked i' next')) {o o' : Outcome}
    (ho : Outcome.Same U.contexts o o') :
    S (afterChain handler x i next o) (afterChain handler x' i' next' o') := by
  cases ho with
  | ok v => exact hrest
  | @error f f' hf =>
    have hcall : S (handler.call (handlerFrame x i f)) (handler.call (handlerFrame x' i' f')) :=
      h.script ⟨.some hx, .some hresume, .some (.failure hf (.some hx))⟩ hhandler
    exact hclear (h.log (.boundaryCaught hf) (hlogs _ nofun) (h.followedBy hcall hrest))

/-- A failure that a bot has no handler for. -/
theorem defaultHandler (hlogs : ∀ n, n.level ≠ .critical → U.logs n) {f f' : Fault}
    (hf : f.Same U.contexts f')
    (hx : Option.Rel U.contexts (Bot.failureContext f) (Bot.failureContext f')) :
    S (Bot.defaultHandler f) (Bot.defaultHandler f') := by
  refine h.withContext ⟨hx, .none, .none⟩ fun _ c => ?_
  split
  · exact h.refuses _
  · exact h.log (.failed hf _) (hlogs _ nofun)
      (h.log (.refl .noHandler) (hlogs _ nofun) (h.raised hf))

/-- A batch of updates, if the bots handle each one and report each failure of one. -/
theorem handleUpdates (hlogs : ∀ n, U.logs n) (hC : ∀ {x x'}, U.contexts x x' → x = x')
    (id id' : Nat)
    (hupdate : ∀ update, S (Bot.handleUpdate id update) (Bot.handleUpdate id' update))
    (hreport : ∀ f, S (Bot.report id f) (Bot.report id' f)) (updates : List Json) :
    S (Bot.handleUpdates id updates) (Bot.handleUpdates id' updates) := by
  induction updates with
  | nil => exact h.done
  | cons update rest ih =>
    refine h.andThen (hupdate update) fun o o' ho => ?_
    cases ho with
    | ok v => exact ih
    | error hf =>
      cases hf.eq hC
      dsimp only
      split
      · exact h.followedBy (hreport _) ih
      split
      · exact h.log (.refl _) (hlogs _) (h.refuses _)
      · exact h.refuses _

end Acting

end Process

end UpdateDispatch
