import UpdateDispatch.Proofs.Dispatch.Parts
import UpdateDispatch.Proofs.Dispatch.Sound

/-!
# What processes keep to

A `Realm` says what processes may do: which links they may enter, for which contexts and with which
continuations, and what they may note. `Realm.Stays` says that a process keeps to a realm as long as
the states that it finds are those of the realm, but for the links that it enters: what these do is
only known in the state by then. For this a realm lets some parts run (`Realm.Lets`), so that a link
of such parts stays in the realm as well (`Realm.Lets.stays_call`).
-/

namespace UpdateDispatch

open Process

/-! ## Realms -/

/-- What processes may do: enter links for contexts, with continuations, note values, and start
others; and the states in which they do it. -/
structure Realm where
  world : World → Prop := fun _ => True
  enters : Link → Nat → Prop
  hands : Nat → Process → Prop := fun _ _ => True
  notes : Json → Prop
  forks : Prop

namespace Realm

/-- The process does nothing but what the realm allows, until it enters a link. -/
def Stays (R : Realm) : Process → Prop
  | .value _ | .raised _ => True
  | .deferred p | .pause p | .useGuard _ p => R.Stays p
  | .read k => ∀ w, R.world w → R.Stays (k w)
  | .write f p => (∀ u, f = World.record (.note u) → R.notes u) ∧ R.Stays p
  | .newGuard k => ∀ guard, R.Stays (k guard)
  | .checkGuard _ k => ∀ used, R.Stays (k used)
  | .both l r k => R.forks ∧ R.Stays l ∧ R.Stays r ∧ ∀ s, R.Stays (k s)
  | .start _ _ | .await _ _ => False
  | .enter l x next k => R.enters l x ∧ R.hands x next ∧ R.Stays next ∧ ∀ o, R.Stays (k o)

variable {R : Realm} {p q : Process} {w : World}

/-! ## What stays -/

theorem stays_value (v : Json) : R.Stays (value v) := trivial

theorem stays_raised (f : Fault) : R.Stays (raised f) := trivial

theorem stays_done : R.Stays done := trivial

theorem stays_ended (o : Outcome) : R.Stays (ended o) := by
  cases o <;> trivial

theorem record_ne_note {e : Event} (he : ∀ u, e ≠ .note u) (u : Json) :
    World.record e ≠ World.record (.note u) := by
  intro heq
  have hevents := congrArg World.events (congrFun heq { client := none, me := default })
  exact he u (List.singleton_inj.mp hevents)

/-- A change that leaves the events of some state as they are is not a note. -/
theorem Stays.write (h : R.Stays p) {f : World → World} (hf : ∃ w, (f w).events = w.events) :
    R.Stays (write f p) := by
  refine ⟨fun u hnote => ?_, h⟩
  obtain ⟨w, hw⟩ := hf
  rw [hnote] at hw
  exact absurd hw (by simp [World.record])

theorem Stays.record (h : R.Stays p) {e : Event} (he : ∀ u, e ≠ .note u) :
    R.Stays (record e p) :=
  ⟨fun u hnote => absurd hnote (record_ne_note he u), h⟩

theorem Stays.note (h : R.Stays p) {v : Json} (hv : R.notes v) :
    R.Stays (Process.record (.note v) p) := by
  refine ⟨fun u hnote => ?_, h⟩
  have hevents := congrArg World.events (congrFun hnote { client := none, me := default })
  obtain rfl := Event.note.inj (List.singleton_inj.mp hevents)
  exact hv

theorem Stays.log (h : R.Stays p) (n : Notice) : R.Stays (log n p) :=
  h.write ⟨{ client := none, me := default }, rfl⟩

theorem Stays.andThen {k : Outcome → Process} (h : R.Stays p) (hk : ∀ o, R.Stays (k o)) :
    R.Stays (p.andThen k) := by
  induction p with
  | value v => exact hk _
  | raised f => exact hk _
  | deferred p ih | pause p ih | useGuard _ p ih => exact ih h
  | read g ih => exact fun w hw => ih w (h w hw)
  | write f p ih => exact ⟨h.1, ih h.2⟩
  | newGuard g ih | checkGuard _ g ih => exact fun i => ih i (h i)
  | both l r g _ _ ih => exact ⟨h.1, h.2.1, h.2.2.1, fun s => ih s (h.2.2.2 s)⟩
  | start p g | await t g => exact h.elim
  | enter l x next g _ ih => exact ⟨h.1, h.2.1, h.2.2.1, fun o => ih o (h.2.2.2 o)⟩

theorem Stays.onCall {k : Reply → Process} (h : R.Stays p)
    (hk : ∀ r, (∀ q, r = .awaitable q → R.Stays q) → R.Stays (k r)) : R.Stays (p.onCall k) := by
  induction p with
  | value v => exact hk _ nofun
  | raised f => exact hk _ nofun
  | deferred p =>
    refine hk _ ?_
    rintro _ ⟨⟩
    exact h
  | pause p ih | useGuard _ p ih => exact ih h
  | read g ih => exact fun w hw => ih w (h w hw)
  | write f p ih => exact ⟨h.1, ih h.2⟩
  | newGuard g ih | checkGuard _ g ih => exact fun i => ih i (h i)
  | both l r g _ _ ih => exact ⟨h.1, h.2.1, h.2.2.1, fun s => ih s (h.2.2.2 s)⟩
  | start p g | await t g => exact h.elim
  | enter l x next g _ ih => exact ⟨h.1, h.2.1, h.2.2.1, fun o => ih o (h.2.2.2 o)⟩

theorem Stays.followedBy (h : R.Stays p) (hq : R.Stays q) : R.Stays (p.followedBy q) := by
  refine h.andThen fun o => ?_
  cases o with
  | ok v => exact hq
  | error f => exact stays_raised f

theorem Stays.ignored (h : R.Stays p) : R.Stays p.ignored := h.followedBy stays_done

theorem Stays.thenCalled (h : R.Stays p) (hq : R.Stays q) : R.Stays (p.thenCalled q) := by
  refine h.onCall fun r hr => ?_
  cases r with
  | value v => exact hq
  | raised f => exact stays_raised f
  | awaitable r => exact hr r rfl

theorem Stays.awaited (h : R.Stays p) : R.Stays p.awaited := by
  refine h.onCall fun r hr => ?_
  cases r with
  | value v => exact trivial
  | raised f => exact stays_raised f
  | awaitable r => exact hr r rfl

theorem Stays.pauses (h : R.Stays p) (n : Nat) : R.Stays (pauses n p) := by
  induction n with
  | zero => exact h
  | succ n ih => exact ih

theorem Stays.of_awaits (h : R.Stays p) (hawaits : Awaits p q) : R.Stays q := by
  induction hawaits with
  | refl => exact h
  | deferred _ ih => exact ih h

/-! ## Scripts -/

theorem stays_building {α : Type} {b : Build α} {k : α → Process}
    (hk : ∀ w a, R.world w → (b.outcome w).1 = .ok a → R.Stays (k a)) :
    R.Stays (building b k) := by
  intro w hw
  dsimp only
  rcases houtcome : b.outcome w with ⟨f | a, w'⟩
  · exact (stays_raised f).write ⟨w', rfl⟩
  · exact (hk w a hw (by rw [houtcome])).write ⟨w', rfl⟩

/-- The continuation of a frame, if there is one, stays in the realm. -/
def Hosts (R : Realm) (e : Frame) : Prop := ∀ p, e.next = some p → R.Stays p

/-- What scripts note in a realm. -/
def usage (R : Realm) : Usage where
  notes := R.notes

theorem answering_stays : Answering R.usage fun p _ => R.Stays p where
  value := stays_value
  raised _ := stays_raised _
  pause hp := hp
  record {e _ _ _} _ he hp := by
    cases e with
    | note v => exact hp.note he
    | _ => exact hp.record nofun
  context := by
    rintro x _ k k' rfl hk
    exact fun w _ => hk w w rfl
  setContext _ c hp := hp.write ⟨{ client := none, me := default }, rfl⟩

theorem stays_result (p : Probe Condition) (x : Nat) : R.Stays (p.result x) :=
  answering_stays.result p rfl

/-- A function of the context that notes only what it may. -/
theorem stays_asked {p : Probe Condition} (hp : ∀ u, p.note = some u → R.notes u) (x : Nat) :
    R.Stays (p.asked x) := answering_stays.asked hp rfl

/-- Scripts that call their continuation twice at once start others. -/
theorem acting_stays (hforks : R.forks) :
    Acting R.usage (fun p _ => R.Stays p) fun p _ => R.Stays p where
  toAnswering := answering_stays
  deferred hp := hp
  log _ _ hp := hp.log _
  client hk w _ := hk w w rfl
  andThen hp hk := hp.andThen fun o => hk o o (.refl o)
  thenCalled := .thenCalled
  dropping hp := hp.onCall fun r _ => by
    cases r with
    | raised f => exact stays_raised f
    | value v | awaitable q => exact stays_done
  registering _ := stays_building fun _ _ _ _ => stays_done
  next hp := hp
  missing := stays_raised
  twice hp := ⟨hforks, hp, hp, fun _ => stays_done.record nofun⟩

/-! ## Links -/

/-- The realm lets the parts `P` run for a context. -/
structure Lets (R : Realm) (x : Nat) (P : Part → Prop) : Prop where
  forks : R.forks
  notes : ∀ {part u}, P part → part.Notes u → R.notes u
  chain : ∀ {id w}, P (.composer id) → R.world w → R.enters (w.chain id) x
  register : ∀ {name m w}, P (.register name) → R.world w →
    Named.find? name w.registers = some m → m.Within P
  handler : ∀ {id w b s}, P (.composer id) → R.world w → w.bot? id = some b →
    b.handler = some s → P (.script s)
  built : ∀ {l : Link}, l.Within P → R.enters l x
  leaf : R.hands x leaf
  resume : ∀ mark, R.hands x (resume mark)
  once : ∀ guard {l : Link} {next}, l.Within P → R.hands x next → R.Stays next →
    R.hands x (once guard (l.call x next))

variable {P : Part → Prop} {x : Nat} {next : Process}

theorem Stays.once (h : R.Stays p) (guard : Nat) : R.Stays (once guard p) := by
  intro used
  cases used with
  | true => trivial
  | false => exact h.awaited

theorem stays_leaf : R.Stays leaf := trivial

theorem stays_resume (mark : Nat) : R.Stays (resume mark) :=
  stays_done.write ⟨{ client := none, me := default }, rfl⟩

namespace Lets

theorem admitted (hR : R.Lets x P) {s : Script} (hs : P (.script s)) :
    ∀ a ∈ s.actions, a.Admitted R.usage :=
  fun _ ha => ⟨fun {v} heq => hR.notes hs (show .note v ∈ s.actions from heq ▸ ha),
    fun _ => trivial⟩

/-- A script that the realm lets run. -/
theorem stays_script (hR : R.Lets x P) {s : Script} (hs : P (.script s)) {e : Frame}
    (he : R.Hosts e) : R.Stays (s.call e) :=
  (acting_stays hR.forks).script (Frame.same_self (fun _ => rfl) he) (hR.admitted hs)

theorem stays_dispatch (hR : R.Lets x P) {id : Nat} (hid : P (.composer id))
    (hhands : R.hands x next) (hnext : R.Stays next) : R.Stays (dispatch id x next) :=
  fun _ hw => ⟨hR.chain hid hw, hhands, hnext, fun o => (stays_ended o).ignored⟩

theorem stays_fork (hR : R.Lets x P) {side : Nat} (hside : P (.composer side))
    (hnext : R.Stays next) : R.Stays (Process.fork side x next) := by
  have hbranch := hR.stays_dispatch hside hR.leaf stays_leaf
  have hjoined : ∀ s, R.Stays (joined s) := fun s =>
    (acting_stays hR.forks).joined (fun _ _ => trivial) (.refl s)
  refine hnext.onCall fun r hr => ?_
  cases r with
  | raised f => exact stays_raised f
  | value v => exact ⟨hR.forks, stays_value v, hbranch, hjoined⟩
  | awaitable rest => exact ⟨hR.forks, hr rest rfl, hbranch, hjoined⟩

theorem stays_boundary (hR : R.Lets x P) {inner : Nat} {handler : Script}
    (hinner : P (.composer inner)) (hhandler : P (.script handler)) (hnext : R.Stays next) :
    R.Stays (Process.boundary inner handler x next) := by
  intro w _
  refine Stays.write ?_ ⟨{ client := none, me := default }, rfl⟩
  have hrest : R.Stays (restIfMarked w.marks.length next) := by
    intro w' _
    dsimp only
    split
    · exact hnext.ignored
    · exact stays_done
  refine (hR.stays_dispatch hinner (hR.resume _) (stays_resume _)).andThen fun o => ?_
  exact (acting_stays hR.forks).afterChain _ w.marks.length _ next (fun _ _ => trivial)
    (hR.admitted hhandler) rfl (stays_resume _)
    (·.write ⟨{ client := none, me := default }, rfl⟩) hrest (.refl o)

/-- What a choice of such parts gives to be built is of such parts. -/
theorem paired (hR : R.Lets x P) {c : Choice} (hc : ∀ ⦃part⦄, c.Has part → P part) :
    c.Paired R.usage (fun b _ => ∀ w, R.world w →
      b.Gives w.registers fun mw => ∀ m ∈ mw, m.Within P) c := by
  cases c with
  | branch p negated yes no =>
    refine .branch (fun u hu => hR.notes (hc (.branch p negated yes no)) hu)
      (fun w _ => Build.gives_pure ?_) (fun w _ => Build.gives_pure ?_)
    · exact fun m hm part hpart => hc (.yes hm hpart)
    · exact fun m hm part hpart => hc (.no hm hpart)
  | route router handlers fallback =>
    have hfallback : ∀ m ∈ fallback, m.Within P := fun m hm part hpart => hc (.fallback hm hpart)
    refine .route (fun u hu => hR.notes (hc (.route router handlers fallback)) hu)
      (fun w _ => Build.gives_pure hfallback) fun key w _ => Build.gives_pure ?_
    rcases hfound : handlerFor key handlers with _ | mw
    · exact hfallback
    · obtain ⟨k, hmem⟩ := mem_of_handlerFor hfound
      exact fun m hm part hpart => hc (.handler hmem hm hpart)
  | table factory specs default =>
    refine .table (fun u hu => hR.notes (hc (.table factory specs default)) hu) fun v w hw => ?_
    have hspec : ∀ ⦃part⦄, (specFor v specs default).Has part → P part := by
      intro part hpart
      rcases specFor_mem v specs default with heq | ⟨name, hmem⟩
      · exact hc (.default (heq ▸ hpart))
      · exact hc (.row hmem hpart)
    refine (Build.denotes_within fun h => hR.register h hw).gives_spec ?_
    split
    · next e heq => exact fun part hpart => hspec (heq ▸ .one hpart)
    · next es heq => exact fun e he part hpart => hspec (heq ▸ .many he hpart)

/-- A link of parts that the realm lets run. -/
theorem stays_call (hR : R.Lets x P) : (l : Link) → l.Within P → {next : Process} →
    R.hands x next → R.Stays next → R.Stays (l.call x next)
  | .pass, _, _, _, hnext => hnext
  | .script s, hl, _, _, hnext => by
    refine hR.stays_script (hl (.script s)) ?_
    rintro _ ⟨⟩
    exact hnext
  | .composer id, hl, _, hhands, hnext => hR.stays_dispatch (hl (.composer id)) hhands hnext
  | .concat first second, hl, next, hhands, hnext => by
    have hsecond : second.Within P := fun _ h => hl (.second h)
    intro guard
    exact (stays_call hR first (fun _ h => hl (.first h)) (hR.once guard hsecond hhands hnext)
      ((stays_call hR second hsecond hhands hnext).once guard)).ignored
  | .lazily c, hl, next, hhands, hnext => by
    have hpaired := hR.paired fun _ h => hl (.lazily h)
    refine (acting_stays hR.forks).pick_alone hpaired rfl fun b hb => ?_
    refine stays_building fun w l hw ha => ?_
    have hbuilt := (hb w hw).bind fun mw hmw => Build.composes_within.gives_compose hmw
    exact ⟨hR.built ((hbuilt w rfl).1 l ha), hhands, hnext, fun o => (stays_ended o).ignored⟩
  | .fork side, hl, _, _, hnext => hR.stays_fork (hl (.fork side)) hnext
  | .boundary inner handler, hl, _, _, hnext =>
    hR.stays_boundary (hl (.inner inner handler)) (hl (.handler inner handler)) hnext

theorem stays_run (hR : R.Lets x P) {l : Link} (hl : l.Within P) : R.Stays (l.run x) :=
  (hR.stays_call l hl hR.leaf stays_leaf).ignored

end Lets

/-! ## Updates -/

theorem stays_withBot {id : Nat} {member : String} {k : World → BotState → Process}
    (hk : ∀ w b, R.world w → w.bot? id = some b → R.Stays (k w b)) :
    R.Stays (Bot.withBot id member k) := by
  intro w hw
  dsimp only
  split
  · next b hb => exact hk w b hw hb
  · exact stays_raised _

section Updates

variable (hR : ∀ x, R.Lets x P) {id : Nat} (hid : P (.composer id))

include hR hid

theorem stays_handleUpdate (update : Json) : R.Stays (Bot.handleUpdate id update) := by
  refine stays_withBot fun w b hw _ => ?_
  split
  · exact stays_raised _
  split
  · exact stays_raised _
  refine Stays.log ?_ _
  split
  · exact stays_raised _
  have hrun : R.Stays ((Link.composer id).run w.contexts.length) :=
    (hR _).stays_run fun part hpart => by
      cases hpart
      exact hid
  refine (hrun.andThen fun o => ?_).write ⟨{ client := none, me := default }, rfl⟩
  cases o with
  | ok v => exact stays_value _
  | error f => exact (stays_raised _).log _

theorem stays_report (failure : Fault) : R.Stays (Bot.report id failure) := by
  refine stays_withBot fun w b hw hb => ?_
  split
  · next handler hhandler =>
    exact (hR 0).stays_script ((hR 0).handler hid hw hb hhandler) (by rintro _ ⟨⟩)
  · exact (acting_stays (hR 0).forks).defaultHandler (fun _ _ => trivial) (.refl failure)
      (rel_self fun _ _ => rfl)

theorem stays_handleUpdates (updates : List Json) : R.Stays (Bot.handleUpdates id updates) :=
  (acting_stays (hR 0).forks).handleUpdates (fun _ => trivial) (fun hx => hx) id id
    (stays_handleUpdate hR hid) (stays_report hR hid) updates

end Updates

/-! ## Steps -/

open Machine (Runs Parks)

/-- A step stays in the realm, if a link that is entered does. -/
theorem Stays.of_runs (h : R.Stays p) {n n' : Nat} {w' : World} (hw : R.world w)
    (hcall : ∀ {l x next k}, p = .enter l x next k → R.Stays (l.call x next))
    (hruns : Runs n w p n' w' q) : R.Stays q := by
  cases hruns with
  | deferred | useGuard => exact h
  | read => exact h w hw
  | write => exact h.2
  | newGuard => exact h _
  | checkGuard used => exact h used
  | enter => exact (hcall rfl).andThen h.2.2.2

/-- What is left of a process, and what it starts. -/
theorem Stays.of_parks (h : R.Stays p) {j : Nat} {a b : Owner} (hparks : Parks j a p b q) :
    R.Stays q := by
  cases hparks with
  | pause => exact h
  | left => exact h.2.1
  | right => exact h.2.2.1
  | join s => exact h.2.2.2 s

theorem Stays.forks_of_parks (h : R.Stays p) {j : Nat} {a : Owner} {left : Bool}
    (ha : ∀ left, a ≠ .side j left) (hparks : Parks j a p (.side j left) q) : R.forks := by
  cases hparks with
  | left | right => exact h.1
  | pause | join s => exact absurd rfl (ha left)

/-- In a realm of all states in which no link is entered, a process stays whatever it comes to. -/
theorem Stays.of_leads (h : R.Stays p) (hw : ∀ w, R.world w) (henters : ∀ l x, ¬ R.enters l x)
    (hleads : Leads p q) : R.Stays q := by
  induction hleads with
  | refl => exact h
  | tail _ hstep ih =>
    cases hstep with
    | runs hruns =>
      refine ih.of_runs (hw _) (fun {l x next k} heq => ?_) hruns
      subst heq
      exact absurd ih.1 (henters l x)
    | pause => exact ih
    | join s => exact ih.2.2.2 s

end Realm

/-! ## Dispatches -/

/-- What a dispatcher is asked to do: to run a chain for a context, or to handle updates. -/
inductive Dispatch where
  | run (l : Link) (x : Nat)
  | handleUpdate (id : Nat) (update : Json)
  | handleUpdates (id : Nat) (updates : List Json)

namespace Dispatch

/-- The process of a dispatch. -/
def process : Dispatch → Process
  | run l x => l.run x
  | handleUpdate id update => Bot.handleUpdate id update
  | handleUpdates id updates => Bot.handleUpdates id updates

theorem dispatches (d : Dispatch) : Dispatches d.process := by
  cases d with
  | run l x => exact .run l x
  | handleUpdate id update => exact .handleUpdate id update
  | handleUpdates id updates => exact .handleUpdates id updates

/-- The parts that a dispatch starts with. -/
def Starts (part : Part) : Dispatch → Prop
  | run l _ => l.Has part
  | handleUpdate id _ | handleUpdates id _ => part = .composer id

theorem stays_process {R : Realm} {P : Part → Prop} (hR : ∀ x, R.Lets x P) {d : Dispatch}
    (hd : ∀ ⦃part⦄, d.Starts part → P part) : R.Stays d.process := by
  cases d with
  | run l x => exact (hR x).stays_run hd
  | handleUpdate id update => exact Realm.stays_handleUpdate hR (hd rfl) update
  | handleUpdates id updates => exact Realm.stays_handleUpdates hR (hd rfl) updates

end Dispatch

end UpdateDispatch
