import UpdateDispatch.Proofs.Dispatch.Offers
import UpdateDispatch.Proofs.Dispatch.Realms

/-!
# Processes that spare containers

A process that runs a chain asks containers in two ways only: where it registers something, and in
the calls of links that choose. `Process.Spares` says so, and that none of these links and
registrations offers certain containers to choose from. All that is dispatched spares the
containers that nothing in the state offers (`Process.spares_call`, `Dispatch.spares_process`).
-/

namespace UpdateDispatch

open Process

/-! ## Steps that ask nothing -/

/-- A change of the state in which nothing is asked or registered. -/
def Inert (f : World → World) : Prop := ∀ w, (f w).accesses = w.accesses ∧
  (f w).composers = w.composers ∧ (f w).registers = w.registers

theorem inert_record {e : Event} (he : e.container? = none) : Inert (World.record e) := fun w => by
  refine ⟨?_, rfl, rfl⟩
  rw [World.accesses, World.record, List.filterMap_append, List.filterMap_cons, he]
  exact List.append_nil _

theorem Event.container?_of_admitted {U : Usage} {e : Event} (he : e.Admitted U) :
    e.container? = none := by
  cases e with
  | accessed name => exact he.elim
  | _ => rfl

theorem inert_log (n : Notice) : Inert (World.log n) := fun _ => ⟨rfl, rfl, rfl⟩

theorem inert_setContext (x : Nat) (c : Context) : Inert (World.setContext x c) := fun _ =>
  ⟨rfl, rfl, rfl⟩

theorem inert_addContext (c : Context) : Inert (World.addContext c) := fun _ => ⟨rfl, rfl, rfl⟩

theorem inert_setMark (mark : Nat) (b : Bool) : Inert (World.setMark mark b) := fun _ =>
  ⟨rfl, rfl, rfl⟩

theorem inert_addMark : Inert World.addMark := fun _ => ⟨rfl, rfl, rfl⟩

/-- A change that does not depend on the state is not inert: more may have been asked before. -/
theorem not_inert_const (w : World) : ¬ Inert fun _ => w := fun h => by
  have haccesses : (w.record (.accessed "")).accesses = w.accesses ++ [""] := by
    rw [World.accesses, World.record, List.filterMap_append]
    rfl
  have heq := haccesses ▸ (h (w.record (.accessed ""))).1
  exact absurd (congrArg List.length heq) (by simp)

theorem Inert.spares {K : Terms} {f : World → World} (hf : Inert f) {w : World}
    (h : w.Spares K) : (f w).Spares K := h.congr (hf w).2.1 (hf w).2.2

namespace Process

/-- A process that asks and registers nothing, starts no other one, and enters no link. -/
inductive Mute : Process → Prop
  | value (v : Json) : Mute (.value v)
  | raised (f : Fault) : Mute (.raised f)
  | read {k : World → Process} (h : ∀ w, Mute (k w)) : Mute (.read k)
  | write {f : World → World} {p : Process} (hf : Inert f) (h : Mute p) : Mute (.write f p)
  | pause {p : Process} (h : Mute p) : Mute (.pause p)

namespace Mute

variable {p q : Process}

theorem of_step (h : p.Mute) (hstep : Step p q) : q.Mute := by
  cases hstep with
  | pause =>
    cases h with
    | pause h => exact h
  | join s => cases h
  | runs hruns =>
    cases h with
    | value | raised | pause => cases hruns
    | read h =>
      cases hruns
      exact h _
    | write _ h =>
      cases hruns
      exact h

theorem of_leads (h : p.Mute) (hleads : Leads p q) : q.Mute := by
  induction hleads with
  | refl => exact h
  | tail _ hstep ih => exact ih.of_step hstep

theorem strip_eq (h : p.Mute) : p.strip = p := by
  cases h <;> rfl

end Mute

end Process

/-- Functions of the context ask no container. -/
theorem Process.answering_mute : Answering {} fun p _ => p.Mute where
  value := .value
  raised _ := .raised _
  pause := .pause
  record _ he hp := .write (inert_record (Event.container?_of_admitted he)) hp
  context := by
    rintro x _ k k' rfl hk
    exact .read fun w => hk w w rfl
  setContext _ c hp := .write (inert_setContext _ c) hp

theorem Probe.mute_asked (p : Probe Condition) (x : Nat) : (p.asked x).Mute :=
  answering_mute.asked p.admitted rfl

/-! ## Processes -/

/-- The state after a step of registration. -/
def Step.effect (s : Step) (w : World) : World := ((Build.step s).outcome w).2

/-- The process asks containers only where it registers something or calls a link that chooses, and
it offers none of `K` to choose from. -/
inductive Process.Spares (K : Terms) : Process → Prop
  | value (v : Json) : Spares K (.value v)
  | raised (f : Fault) : Spares K (.raised f)
  | deferred {p : Process} (h : Spares K p) : Spares K (.deferred p)
  | read {k : World → Process} (h : ∀ w, w.Spares K → Spares K (k w)) : Spares K (.read k)
  | write {f : World → World} {p : Process} (hf : Inert f) (h : Spares K p) :
      Spares K (.write f p)
  | newGuard {k : Nat → Process} (h : ∀ guard, Spares K (k guard)) : Spares K (.newGuard k)
  | checkGuard {guard : Nat} {k : Bool → Process} (h : ∀ used, Spares K (k used)) :
      Spares K (.checkGuard guard k)
  | useGuard {guard : Nat} {p : Process} (h : Spares K p) : Spares K (.useGuard guard p)
  | pause {p : Process} (h : Spares K p) : Spares K (.pause p)
  | both {l r : Process} {k : Settled → Process} (hl : Spares K l) (hr : Spares K r)
      (hk : ∀ s, Spares K (k s)) : Spares K (.both l r k)
  | enter {l : Link} {x : Nat} {next : Process} {k : Outcome → Process} (hl : l.Spares K)
      (hnext : Spares K next) (hk : ∀ o, Spares K (k o)) : Spares K (.enter l x next k)
  | register {s : UpdateDispatch.Step} {rest : World → Process} (hs : s.Scripted K)
      (h : ∀ w, w.Spares K → Spares K (rest w)) :
      Spares K (.read fun w => .write (fun _ => s.effect w) (rest w))
  | traverse {T : Passage} {p : Process} (hstart : p = T.start) (hchoice : T.choice.Spares K)
      (hraised : ∀ f, Spares K (T.entered (.error f)))
      (hentered : ∀ chain : Link, chain.Spares K → Spares K (T.entered (.ok chain))) : Spares K p

namespace Process

variable {K : Terms} {p q : Process} {e : Frame} {x : Nat} {next : Process}

theorem spares_done : done.Spares K := .value _

theorem spares_ended (o : Outcome) : (ended o).Spares K := by
  cases o with
  | ok v => exact .value v
  | error f => exact .raised f

theorem Spares.log (h : p.Spares K) (n : Notice) : (Process.log n p).Spares K :=
  .write (inert_log n) h

theorem Spares.record (h : p.Spares K) {e : Event} (he : e.container? = none) :
    (Process.record e p).Spares K := .write (inert_record he) h

theorem Spares.andThen {k : Outcome → Process} (h : p.Spares K) (hk : ∀ o, (k o).Spares K) :
    (p.andThen k).Spares K := by
  induction h with
  | value v => exact hk (.ok v)
  | raised f => exact hk (.error f)
  | deferred _ ih => exact ih
  | read _ ih => exact .read ih
  | write hf _ ih => exact .write hf ih
  | newGuard _ ih => exact .newGuard ih
  | checkGuard _ ih => exact .checkGuard ih
  | useGuard _ ih => exact .useGuard ih
  | pause _ ih => exact .pause ih
  | both hl hr _ _ _ ih => exact .both hl hr ih
  | enter hl hnext _ _ ih => exact .enter hl hnext ih
  | register hs _ ih => exact .register hs ih
  | @traverse T _ hstart hchoice _ _ ihraised ihentered =>
    subst hstart
    exact .traverse (T := T.andThen k) rfl hchoice ihraised ihentered

theorem Spares.onCall {k : Reply → Process} (h : p.Spares K)
    (hk : ∀ r, (∀ q, r = .awaitable q → q.Spares K) → (k r).Spares K) :
    (p.onCall k).Spares K := by
  induction h with
  | value v => exact hk _ nofun
  | raised f => exact hk _ nofun
  | deferred h =>
    refine hk _ ?_
    rintro _ ⟨⟩
    exact h
  | read _ ih => exact .read ih
  | write hf _ ih => exact .write hf ih
  | newGuard _ ih => exact .newGuard ih
  | checkGuard _ ih => exact .checkGuard ih
  | useGuard _ ih => exact .useGuard ih
  | pause _ ih => exact .pause ih
  | both hl hr _ _ _ ih => exact .both hl hr ih
  | enter hl hnext _ _ ih => exact .enter hl hnext ih
  | register hs _ ih => exact .register hs ih
  | @traverse T _ hstart hchoice _ _ ihraised ihentered =>
    subst hstart
    exact .traverse (T := T.onCall k) rfl hchoice ihraised ihentered

theorem Spares.followedBy (h : p.Spares K) (hq : q.Spares K) : (p.followedBy q).Spares K := by
  refine h.andThen fun o => ?_
  cases o with
  | ok v => exact hq
  | error f => exact .raised f

theorem Spares.ignored (h : p.Spares K) : p.ignored.Spares K := h.followedBy spares_done

theorem Spares.thenCalled (h : p.Spares K) (hq : q.Spares K) : (p.thenCalled q).Spares K := by
  refine h.onCall fun r hr => ?_
  cases r with
  | value v => exact hq
  | raised f => exact .raised f
  | awaitable r => exact .deferred (hr r rfl)

theorem Spares.awaited (h : p.Spares K) : p.awaited.Spares K := by
  refine h.onCall fun r hr => ?_
  cases r with
  | value v => exact .deferred (.value v)
  | raised f => exact .raised f
  | awaitable r => exact .deferred (hr r rfl)

/-! ### Scripts -/

/-- The continuation of a frame, if there is one, spares the containers. -/
def FrameSpares (K : Terms) (e : Frame) : Prop := ∀ p, e.next = some p → p.Spares K

/-- A registration that a script makes. -/
theorem spares_registering {s : UpdateDispatch.Step} (hs : s.Scripted K) :
    (building (Build.step s) fun _ => done).Spares K := by
  have heq : (building (Build.step s) fun _ => done) = .read fun w => .write (fun _ => s.effect w)
      (match ((Build.step s).outcome w).1 with
        | .ok _ => done
        | .error f => Process.raised f) := by
    refine congrArg Process.read (funext fun w => ?_)
    unfold Step.effect
    rcases (Build.step s).outcome w with ⟨_ | _, w'⟩ <;> rfl
  rw [heq]
  refine .register hs fun w _ => ?_
  split
  · exact spares_done
  · exact .raised _

/-- What is admitted where containers are spared. -/
def sparing (K : Terms) : Usage where
  steps := UpdateDispatch.Step.Scripted K

theorem acting_spares :
    Acting (sparing K) (fun p _ => p.Spares K) fun p _ => p.Spares K where
  value := .value
  raised _ := .raised _
  pause := .pause
  record _ he hp := hp.record (Event.container?_of_admitted he)
  context := by
    rintro x _ k k' rfl hk
    exact .read fun w _ => hk w w rfl
  setContext _ c hp := .write (inert_setContext _ c) hp
  deferred := .deferred
  log _ _ hp := hp.log _
  client hk := .read fun w _ => hk w w rfl
  andThen hp hk := hp.andThen fun o => hk o o (.refl o)
  thenCalled := .thenCalled
  dropping hp := hp.onCall fun r _ => by
    cases r with
    | raised f => exact .raised f
    | value v | awaitable q => exact spares_done
  registering hs := spares_registering hs
  next hp := hp
  missing := .raised
  twice hp := .both hp hp fun _ => spares_done.record rfl

theorem admitted_of_spares {s : Script} (hs : s.Spares K) :
    ∀ a ∈ s.actions, a.Admitted (sparing K) :=
  fun _ ha => ⟨fun _ => trivial, fun heq => hs _ (heq ▸ ha)⟩

theorem spares_script (he : FrameSpares K e) {s : Script} (hs : s.Spares K) :
    (s.call e).Spares K :=
  acting_spares.script (Frame.same_self (fun _ => rfl) he) (admitted_of_spares hs)

/-! ### Links -/

theorem Spares.once (h : p.Spares K) (guard : Nat) : (once guard p).Spares K := by
  refine .checkGuard fun used => ?_
  cases used with
  | true => exact .raised _
  | false => exact .useGuard h.awaited

theorem spares_leaf : leaf.Spares K := .deferred spares_done

theorem spares_resume (mark : Nat) : (resume mark).Spares K :=
  .deferred (.write (inert_setMark mark true) spares_done)

theorem spares_joined (s : Settled) : (joined s).Spares K :=
  acting_spares.joined (fun _ _ => trivial) (.refl s)

theorem spares_dispatch (id x : Nat) (hnext : next.Spares K) : (dispatch id x next).Spares K :=
  .deferred (.read fun _ hw => .enter (hw.chain id) hnext fun o => (spares_ended o).ignored)

theorem spares_fork (side x : Nat) (hnext : next.Spares K) :
    (Process.fork side x next).Spares K := by
  have hbranch : (dispatch side x leaf).Spares K := spares_dispatch side x spares_leaf
  refine hnext.onCall fun r hr => ?_
  cases r with
  | raised f => exact .raised f
  | value v => exact .both (.value v) hbranch spares_joined
  | awaitable rest => exact .both (hr rest rfl) hbranch spares_joined

theorem spares_boundary (inner : Nat) {handler : Script} (hhandler : handler.Spares K) (x : Nat)
    (hnext : next.Spares K) : (Process.boundary inner handler x next).Spares K := by
  refine .read fun w _ => .write inert_addMark ?_
  have hrest : (restIfMarked w.marks.length next).Spares K := by
    refine .read fun w' _ => ?_
    split
    · exact hnext.ignored
    · exact spares_done
  refine (spares_dispatch inner x (spares_resume _)).andThen fun o => ?_
  exact acting_spares.afterChain _ w.marks.length _ next (fun _ _ => trivial)
    (admitted_of_spares hhandler) rfl (spares_resume _) (.write (inert_setMark _ false)) hrest
    (.refl o)

/-- The call of a link that offers none of the containers. -/
theorem spares_call {x : Nat} :
    {l : Link} → l.Spares K → {next : Process} → next.Spares K → (l.call x next).Spares K
  | .pass, _, _, hnext => hnext
  | .script s, .script hs, _, hnext => by
    refine spares_script ?_ hs
    rintro _ ⟨⟩
    exact hnext
  | .composer id, _, _, hnext => spares_dispatch id x hnext
  | .concat first second, .concat hfirst hsecond, _, hnext =>
    .deferred (.newGuard fun guard =>
      (spares_call hfirst ((spares_call hsecond hnext).once guard)).ignored)
  | .lazily c, .lazily hc, next, hnext => by
    have hentered : ∀ chain : Link, chain.Spares K →
        (Offer.entered x next (.ok chain)).Spares K := fun chain hchain =>
      .enter hchain hnext fun o => (spares_ended o).ignored
    exact .deferred (.traverse (T := ⟨c, x, next, fun p => p, .hole⟩) rfl hc .raised hentered)
  | .fork side, _, _, hnext => .deferred (spares_fork side x hnext)
  | .boundary inner handler, .boundary _ hhandler, _, hnext =>
    .deferred (spares_boundary inner hhandler x hnext)

theorem spares_run {l : Link} (hl : l.Spares K) (x : Nat) : (l.run x).Spares K :=
  (spares_call hl spares_leaf).ignored

/-! ### Updates -/

theorem spares_withBot {id : Nat} {member : String} {k : World → BotState → Process}
    (hk : ∀ w b, w.Spares K → w.bot? id = some b → (k w b).Spares K) :
    (Bot.withBot id member k).Spares K := by
  refine .read fun w hw => ?_
  split
  · next b hb => exact hk w b hw hb
  · exact .raised _

theorem spares_handleUpdate (id : Nat) (update : Json) :
    (Bot.handleUpdate id update).Spares K := by
  refine spares_withBot fun w b hw _ => ?_
  split
  · exact .raised _
  split
  · exact .raised _
  refine .log ?_ _
  split
  · exact .raised _
  refine .write (inert_addContext _) ((spares_run (.composer id) _).andThen fun o => ?_)
  cases o with
  | ok v => exact .value _
  | error f => exact .log (.raised _) _

theorem spares_report (id : Nat) (failure : Fault) : (Bot.report id failure).Spares K := by
  refine spares_withBot fun w b hw hb => ?_
  split
  · next handler hhandler =>
    exact spares_script (by rintro _ ⟨⟩) (hw.handler hb handler hhandler)
  · refine .deferred ?_
    exact acting_spares.defaultHandler (fun _ _ => trivial) (.refl failure)
      (rel_self fun _ _ => rfl)

theorem spares_handleUpdates (id : Nat) (updates : List Json) :
    (Bot.handleUpdates id updates).Spares K :=
  acting_spares.handleUpdates (fun _ => trivial) (fun hx => hx) id id (spares_handleUpdate id)
    (spares_report id) updates

end Process

namespace Dispatch

/-- What is dispatched offers none of these containers itself. -/
def Spares (K : Terms) : Dispatch → Prop
  | run l _ => l.Spares K
  | _ => True

theorem spares_any (d : Dispatch) : d.Spares .any := by
  cases d with
  | run l x => exact l.spares_any
  | handleUpdate | handleUpdates => exact trivial

theorem Spares.process {K : Terms} {d : Dispatch} (h : d.Spares K) : d.process.Spares K := by
  cases d with
  | run l x => exact spares_run h x
  | handleUpdate id update => exact spares_handleUpdate id update
  | handleUpdates id updates => exact spares_handleUpdates id updates

end Dispatch

end UpdateDispatch
