import UpdateDispatch.Proofs.Dispatch.Steady

/-!
# The same in two runs

Two runs that go on from states with the same composers and registers do the same, although one of
them may have more contexts, marks and guards behind it. `Origin` holds the two states from which
they go on. Numbers that are given out since then correspond (`Paired`), the states differ in
nothing else that processes can see (`Origin.Worlds`), and twins are processes that do the same in
corresponding states (`Process.Twin`).

Every script and every link is a twin of itself (`Process.twin_script`, `Process.twin_call`): a
process has no way to look at what was there before. If nothing registers anything in the states of
the origin, then nothing that twins enter does, and the composers stay those of the origin.
-/

namespace UpdateDispatch

/-! ## What corresponds -/

/-- Numbers that were given out in the same order, in one run from `n` on and in the other one from
`n'` on. -/
def Paired (n n' x x' : Nat) : Prop := ∃ i, x = n + i ∧ x' = n' + i

/-- The states from which two runs go on. -/
structure Origin where
  left : Machine
  right : Machine

namespace Origin

variable (O : Origin)

/-- Contexts that correspond. -/
def Contexts : Nat → Nat → Prop := Paired O.left.world.contexts.length O.right.world.contexts.length

/-- Marks that correspond. -/
def Marks : Nat → Nat → Prop := Paired O.left.world.marks.length O.right.world.marks.length

/-- Guards that correspond. -/
def Guards : Nat → Nat → Prop := Paired O.left.guards.length O.right.guards.length

/-- Joins that correspond. -/
def Joins : Nat → Nat → Prop := Paired O.left.joins.length O.right.joins.length

/-- Nothing registers anything in the states from which the runs go on. -/
def Steady : Prop := O.left.world.Steady

/-- States of two runs that have come to the same since they went on. Nothing critical has been
logged, and neither the client nor the identity is another one. If nothing registers anything, then
there are no other composers and registers either. -/
structure Worlds (w w' : World) : Prop where
  composers : w'.composers = w.composers
  registers : w'.registers = w.registers
  client : w'.client = w.client
  me : w'.me = w.me
  unchanged : w'.client = O.right.world.client ∧ w'.me = O.right.world.me
  steady : O.Steady → w.composers = O.left.world.composers ∧ w.registers = O.left.world.registers
  contexts : ∃ cs, w.contexts = O.left.world.contexts ++ cs ∧
    w'.contexts = O.right.world.contexts ++ cs
  marks : ∃ ms, w.marks = O.left.world.marks ++ ms ∧ w'.marks = O.right.world.marks ++ ms
  events : ∃ es es', w.events = O.left.world.events ++ es ∧
    w'.events = O.right.world.events ++ es' ∧ List.Forall₂ (Event.Same O.Contexts) es es'
  notices : ∃ ns ns', w.notices = O.left.world.notices ++ ns ∧
    w'.notices = O.right.world.notices ++ ns' ∧ List.Forall₂ (Notice.Same O.Contexts) ns ns' ∧
    ∀ n ∈ ns', n.level ≠ .critical

/-- What is admitted in two runs: no registrations if nothing registers anything where the runs go
on, and nothing critical in the log. -/
def usage : Usage where
  contexts := O.Contexts
  steps _ := ¬ O.Steady
  logs n := n.level ≠ .critical

end Origin

section Worlds

variable {O : Origin} {w w' : World} {x x' i i' : Nat}

theorem getElem?_paired {α : Type} {as as' bs : List α} (h : Paired as.length as'.length x x') :
    (as' ++ bs)[x']? = (as ++ bs)[x]? := by
  obtain ⟨i, rfl, rfl⟩ := h
  rw [List.getElem?_append_right (Nat.le_add_right _ _),
    List.getElem?_append_right (Nat.le_add_right _ _), Nat.add_sub_cancel_left,
    Nat.add_sub_cancel_left]

theorem set_paired {α : Type} {as as' : List α} (bs : List α) (h : Paired as.length as'.length x x')
    (a : α) :
    ∃ bs', (as ++ bs).set x a = as ++ bs' ∧ (as' ++ bs).set x' a = as' ++ bs' := by
  obtain ⟨i, rfl, rfl⟩ := h
  refine ⟨bs.set i a, ?_, ?_⟩ <;>
    rw [List.set_append_right _ _ (Nat.le_add_right _ _), Nat.add_sub_cancel_left]

theorem paired_append {α : Type} (as as' bs : List α) :
    Paired as.length as'.length (as ++ bs).length (as' ++ bs).length :=
  ⟨bs.length, List.length_append, List.length_append⟩

theorem Origin.Worlds.chain (h : O.Worlds w w') (id : Nat) : w'.chain id = w.chain id := by
  rw [World.chain, World.chain, h.composers]

theorem Origin.Worlds.bot? (h : O.Worlds w w') (id : Nat) : w'.bot? id = w.bot? id := by
  rw [World.bot?, World.bot?, h.composers]

theorem Origin.Worlds.world_steady (h : O.Worlds w w') (hO : O.Steady) : w.Steady := by
  obtain ⟨hcomposers, hregisters⟩ := h.steady hO
  exact ⟨hcomposers ▸ hO.chains, hcomposers ▸ hO.handlers, hregisters ▸ hO.registers⟩

theorem Origin.Worlds.context (h : O.Worlds w w') (hx : O.Contexts x x') :
    w'.context x' = w.context x := by
  obtain ⟨cs, hleft, hright⟩ := h.contexts
  rw [World.context, World.context, hleft, hright, getElem?_paired hx]

theorem Origin.Worlds.marked (h : O.Worlds w w') (hi : O.Marks i i') :
    w'.marked i' = w.marked i := by
  obtain ⟨ms, hleft, hright⟩ := h.marks
  rw [World.marked, World.marked, hleft, hright, getElem?_paired hi]

theorem Origin.Worlds.newContext (h : O.Worlds w w') :
    O.Contexts w.contexts.length w'.contexts.length := by
  obtain ⟨cs, hleft, hright⟩ := h.contexts
  rw [hleft, hright]
  exact paired_append _ _ cs

theorem Origin.Worlds.newMark (h : O.Worlds w w') : O.Marks w.marks.length w'.marks.length := by
  obtain ⟨ms, hleft, hright⟩ := h.marks
  rw [hleft, hright]
  exact paired_append _ _ ms

theorem Origin.Worlds.setContext (h : O.Worlds w w') (hx : O.Contexts x x') (c : Context) :
    O.Worlds (w.setContext x c) (w'.setContext x' c) := by
  obtain ⟨cs, hleft, hright⟩ := h.contexts
  obtain ⟨cs', hleft', hright'⟩ := set_paired cs hx c
  exact { h with contexts := ⟨cs', (congrArg (·.set x c) hleft).trans hleft',
    (congrArg (·.set x' c) hright).trans hright'⟩ }

theorem Origin.Worlds.setMark (h : O.Worlds w w') (hi : O.Marks i i') (b : Bool) :
    O.Worlds (w.setMark i b) (w'.setMark i' b) := by
  obtain ⟨ms, hleft, hright⟩ := h.marks
  obtain ⟨ms', hleft', hright'⟩ := set_paired ms hi b
  exact { h with marks := ⟨ms', (congrArg (·.set i b) hleft).trans hleft',
    (congrArg (·.set i' b) hright).trans hright'⟩ }

theorem Origin.Worlds.addContext (h : O.Worlds w w') (c : Context) :
    O.Worlds (w.addContext c) (w'.addContext c) := by
  obtain ⟨cs, hleft, hright⟩ := h.contexts
  refine { h with contexts := ⟨cs ++ [c], ?_, ?_⟩ }
  · rw [World.addContext, hleft, List.append_assoc]
  · rw [World.addContext, hright, List.append_assoc]

theorem Origin.Worlds.addMark (h : O.Worlds w w') : O.Worlds w.addMark w'.addMark := by
  obtain ⟨ms, hleft, hright⟩ := h.marks
  refine { h with marks := ⟨ms ++ [false], ?_, ?_⟩ }
  · rw [World.addMark, hleft, List.append_assoc]
  · rw [World.addMark, hright, List.append_assoc]

theorem Origin.Worlds.record (h : O.Worlds w w') {e e' : Event} (he : e.Same O.Contexts e') :
    O.Worlds (w.record e) (w'.record e') := by
  obtain ⟨es, es', hleft, hright, hsame⟩ := h.events
  refine { h with events := ⟨es ++ [e], es' ++ [e'], ?_, ?_,
    List.rel_append hsame (.cons he .nil)⟩ }
  · rw [World.record, hleft, List.append_assoc]
  · rw [World.record, hright, List.append_assoc]

theorem Origin.Worlds.log (h : O.Worlds w w') {n n' : Notice} (hn : n.Same O.Contexts n')
    (hlevel : n'.level ≠ .critical) : O.Worlds (w.log n) (w'.log n') := by
  obtain ⟨ns, ns', hleft, hright, hsame, hcalm⟩ := h.notices
  refine { h with notices := ⟨ns ++ [n], ns' ++ [n'], ?_, ?_, List.rel_append hsame (.cons hn .nil),
    ?_⟩ }
  · rw [World.log, hleft, List.append_assoc]
  · rw [World.log, hright, List.append_assoc]
  · intro k hk
    rcases List.mem_append.mp hk with hk | hk
    · exact hcalm k hk
    · rwa [List.mem_singleton.mp hk]

/-- Middleware is built in the same way in states that correspond. -/
theorem Origin.sources_worlds (O : Origin) : Build.Sources O.Worlds where
  registers h := h.registers
  accessed h _ := h.record (.refl _)

/-- Registrations do the same in states that correspond, where there may be any. -/
theorem Origin.basis_worlds (hO : ¬ O.Steady) : Build.Basis O.Worlds where
  toSources := O.sources_worlds
  composers h := h.composers
  me h := h.me
  setComposers h _ := { h with composers := rfl, steady := fun h => absurd h hO }
  setRegisters h _ := { h with registers := rfl, steady := fun h => absurd h hO }

end Worlds

namespace Process

/-! ## Twins -/

/-- No processes at all. -/
def Never (_ _ : Process) : Prop := False

/-- Processes that do the same in two runs, unless and until they come to processes of which `T`
holds. What they start beside themselves does not come to any. -/
inductive Towards (O : Origin) : (T : Process → Process → Prop) → Process → Process → Prop
  | last {T : Process → Process → Prop} {p p' : Process} (h : T p p') : Towards O T p p'
  | value {T : Process → Process → Prop} (v : Json) : Towards O T (.value v) (.value v)
  | raised {T : Process → Process → Prop} {f f' : Fault} (h : f.Same O.Contexts f') :
      Towards O T (.raised f) (.raised f')
  | deferred {T : Process → Process → Prop} {p p' : Process} (h : Towards O T p p') :
      Towards O T (.deferred p) (.deferred p')
  | read {T : Process → Process → Prop} {k k' : World → Process}
      (h : ∀ w w', O.Worlds w w' → Towards O T (k w) (k' w')) : Towards O T (.read k) (.read k')
  | write {T : Process → Process → Prop} {f f' : World → World} {p p' : Process}
      (hf : ∀ w w', O.Worlds w w' → O.Worlds (f w) (f' w')) (h : Towards O T p p') :
      Towards O T (.write f p) (.write f' p')
  | newGuard {T : Process → Process → Prop} {k k' : Nat → Process}
      (h : ∀ i i', O.Guards i i' → Towards O T (k i) (k' i')) :
      Towards O T (.newGuard k) (.newGuard k')
  | checkGuard {T : Process → Process → Prop} {i i' : Nat} {k k' : Bool → Process}
      (hi : O.Guards i i') (h : ∀ used, Towards O T (k used) (k' used)) :
      Towards O T (.checkGuard i k) (.checkGuard i' k')
  | useGuard {T : Process → Process → Prop} {i i' : Nat} {p p' : Process} (hi : O.Guards i i')
      (h : Towards O T p p') : Towards O T (.useGuard i p) (.useGuard i' p')
  | pause {T : Process → Process → Prop} {p p' : Process} (h : Towards O T p p') :
      Towards O T (.pause p) (.pause p')
  | both {T : Process → Process → Prop} {l l' r r' : Process} {k k' : Settled → Process}
      (hl : Towards O Never l l') (hr : Towards O Never r r')
      (hk : ∀ s s', Settled.Same O.Contexts s s' → Towards O T (k s) (k' s')) :
      Towards O T (.both l r k) (.both l' r' k')
  | enter {T : Process → Process → Prop} {l : Link} {x x' : Nat} {next next' : Process}
      {k k' : Outcome → Process} (hl : O.Steady → l.Steady) (hx : O.Contexts x x')
      (hnext : Towards O Never next next')
      (hk : ∀ o o', Outcome.Same O.Contexts o o' → Towards O T (k o) (k' o')) :
      Towards O T (.enter l x next k) (.enter l x' next' k')

/-- Processes that do the same in two runs. -/
abbrev Twin (O : Origin) : Process → Process → Prop := Towards O Never

/-- The results of calls that do the same in two runs. -/
inductive Reply.Twin (O : Origin) : Reply → Reply → Prop
  | value (v : Json) : Twin O (.value v) (.value v)
  | raised {f f' : Fault} (h : f.Same O.Contexts f') : Twin O (.raised f) (.raised f')
  | awaitable {p p' : Process} (h : Process.Twin O p p') : Twin O (.awaitable p) (.awaitable p')

variable {O : Origin} {T : Process → Process → Prop} {p p' q q' next next' : Process}
  {o o' : Outcome} {x x' : Nat}

theorem Twin.ended (h : Outcome.Same O.Contexts o o') : Twin O (ended o) (ended o') := by
  cases h with
  | ok v => exact .value v
  | error h => exact .raised h

theorem twin_done : Twin O done done := .value .null

theorem twin_raised (f : Fault) : Twin O (raised f) (raised f) := .raised (.refl f)

/-- Twins, and then processes that lead to `T`. -/
theorem Twin.andThen {k k' : Outcome → Process} (h : Twin O p p')
    (hk : ∀ o o', Outcome.Same O.Contexts o o' → Towards O T (k o) (k' o')) :
    Towards O T (p.andThen k) (p'.andThen k') := by
  unfold Twin at h
  generalize hnever : Never = N at h
  induction h with
  | last h =>
    subst hnever
    cases h
  | value v => exact hk _ _ (.ok v)
  | raised h => exact hk _ _ (.error h)
  | deferred _ ih => exact ih hnever
  | read _ ih => exact .read fun w w' hw => ih w w' hw hnever
  | write hf _ ih => exact .write hf (ih hnever)
  | newGuard _ ih => exact .newGuard fun i i' hi => ih i i' hi hnever
  | checkGuard hi _ ih => exact .checkGuard hi fun used => ih used hnever
  | useGuard hi _ ih => exact .useGuard hi (ih hnever)
  | pause _ ih => exact .pause (ih hnever)
  | both hl hr _ _ _ ih => exact .both hl hr fun s s' hs => ih s s' hs hnever
  | enter hl hx hnext _ _ ih => exact .enter hl hx hnext fun o o' ho => ih o o' ho hnever

theorem Twin.onCall {k k' : Reply → Process} (h : Twin O p p')
    (hk : ∀ r r', Reply.Twin O r r' → Twin O (k r) (k' r')) :
    Twin O (p.onCall k) (p'.onCall k') := by
  unfold Twin at h
  generalize hnever : Never = N at h
  induction h with
  | last h =>
    subst hnever
    cases h
  | value v => exact hk _ _ (.value v)
  | raised h => exact hk _ _ (.raised h)
  | deferred h _ =>
    subst hnever
    exact hk _ _ (.awaitable h)
  | read _ ih => exact .read fun w w' hw => ih w w' hw hnever
  | write hf _ ih => exact .write hf (ih hnever)
  | newGuard _ ih => exact .newGuard fun i i' hi => ih i i' hi hnever
  | checkGuard hi _ ih => exact .checkGuard hi fun used => ih used hnever
  | useGuard hi _ ih => exact .useGuard hi (ih hnever)
  | pause _ ih => exact .pause (ih hnever)
  | both hl hr _ _ _ ih => exact .both hl hr fun s s' hs => ih s s' hs hnever
  | enter hl hx hnext _ _ ih => exact .enter hl hx hnext fun o o' ho => ih o o' ho hnever

theorem Twin.followedBy (h : Twin O p p') (hq : Twin O q q') :
    Twin O (p.followedBy q) (p'.followedBy q') := h.andThen fun o o' ho => by
  cases ho with
  | ok v => exact hq
  | error h => exact .raised h

theorem Twin.ignored (h : Twin O p p') : Twin O p.ignored p'.ignored := h.followedBy twin_done

theorem Twin.thenCalled (h : Twin O p p') (hq : Twin O q q') :
    Twin O (p.thenCalled q) (p'.thenCalled q') := h.onCall fun r r' hr => by
  cases hr with
  | value v => exact hq
  | raised h => exact .raised h
  | awaitable h => exact .deferred h

theorem Twin.awaited (h : Twin O p p') : Twin O p.awaited p'.awaited := h.onCall fun r r' hr => by
  cases hr with
  | value v => exact .deferred (.value v)
  | raised h => exact .raised h
  | awaitable h => exact .deferred h

theorem Twin.record (h : Twin O p p') {e e' : Event} (he : e.Same O.Contexts e') :
    Twin O (record e p) (record e' p') := .write (fun _ _ hw => hw.record he) h

theorem Towards.log (h : Towards O T p p') {n n' : Notice} (hn : n.Same O.Contexts n')
    (hlevel : n'.level ≠ .critical) : Towards O T (log n p) (log n' p') :=
  .write (fun _ _ hw => hw.log hn hlevel) h

theorem twin_record {e e' : Event} (he : e.Same O.Contexts e') :
    Twin O (Process.record e) (Process.record e') := twin_done.record he

theorem twin_building {α : Type} {b : Build α} {k k' : α → Process} {P : α → Prop}
    (hb : b.Respects O.Worlds) (hP : O.Steady → b.Gives O.left.world.registers P)
    (hk : ∀ a, (O.Steady → P a) → Twin O (k a) (k' a)) :
    Twin O (building b k) (building b k') := by
  refine .read fun w w' hw => ?_
  obtain ⟨houtcome, hrest⟩ := hb w w' hw
  have hvalue : ∀ a, (b.outcome w).1 = .ok a → O.Steady → P a := fun a ha hO =>
    (hP hO w (hw.steady hO).2).1 a ha
  rcases hleft : b.outcome w with ⟨f | a, s⟩ <;> rcases hright : b.outcome w' with ⟨f' | a', s'⟩ <;>
    rw [hleft, hright] at houtcome hrest <;> cases houtcome
  · exact .write (fun _ _ _ => hrest) (twin_raised f)
  · exact .write (fun _ _ _ => hrest) (hk a (hvalue a (congrArg Prod.fst hleft)))

/-! ## Scripts -/

theorem acting_twin : Acting O.usage (Twin O) (Twin O) where
  value := .value
  raised := .raised
  pause := .pause
  record he _ hp := hp.record he
  context hx hk := .read fun w w' hw => hk w w' (hw.context hx)
  setContext hx c hp := .write (fun _ _ hw => hw.setContext hx c) hp
  deferred := .deferred
  log hn hlevel hp := hp.log hn hlevel
  client hk := .read fun w w' hw => hk w w' hw.client
  andThen := .andThen
  thenCalled := .thenCalled
  dropping hp := hp.onCall fun r r' hr => by
    cases hr with
    | raised hf => exact .raised hf
    | value v | awaitable hp => exact twin_done
  registering hO :=
    -- only registrations change composers, and there are none in steady states
    twin_building (P := fun _ => True) (Build.respects_step (O.basis_worlds hO) _)
      (fun h => absurd h hO) fun _ _ => twin_done
  next hp := hp
  missing := twin_raised
  twice hp := .both hp hp fun s s' hs => twin_record (.race hs.left.fault? hs.right.fault?)

theorem admitted_usage {s : Script} (hs : O.Steady → s.Steady) :
    ∀ a ∈ s.actions, a.Admitted O.usage :=
  fun a ha => ⟨fun _ => trivial, fun heq hO => hs hO a ha _ heq⟩

/-- A scripted function does the same in two runs. -/
theorem twin_script {e e' : Frame} (h : e.Same O.Contexts (Twin O) e') {s : Script}
    (hs : O.Steady → s.Steady) : Twin O (s.call e) (s.call e') :=
  acting_twin.script h (admitted_usage hs)

/-! ## Links -/

theorem twin_leaf : Twin O leaf leaf := .deferred twin_done

theorem twin_dispatch (id : Nat) (hx : O.Contexts x x') (hnext : Twin O next next') :
    Twin O (dispatch id x next) (dispatch id x' next') := by
  refine .deferred (.read fun w w' hw => ?_)
  rw [hw.chain]
  exact .enter (fun hO => (hw.world_steady hO).chain id) hx hnext
    fun o o' ho => (Twin.ended ho).ignored

theorem Twin.once {i i' : Nat} (hi : O.Guards i i') (h : Twin O p p') :
    Twin O (once i p) (once i' p') := .checkGuard hi fun used => by
  cases used with
  | true => exact twin_raised _
  | false => exact .useGuard hi h.awaited

theorem twin_concat {first second : Nat → Process → Process}
    (hfirst : ∀ {n n'}, Twin O n n' → Twin O (first x n) (first x' n'))
    (hsecond : Twin O (second x next) (second x' next')) :
    Twin O (Process.concat first second x next) (Process.concat first second x' next') :=
  .deferred (.newGuard fun _ _ hi => (hfirst (hsecond.once hi)).ignored)

theorem twin_joined {s s' : Settled} (h : Settled.Same O.Contexts s s') :
    Twin O (joined s) (joined s') := acting_twin.joined (fun _ hlevel => hlevel) h

theorem twin_fork (side : Nat) (hx : O.Contexts x x') (hnext : Twin O next next') :
    Twin O (Process.fork side x next) (Process.fork side x' next') := by
  have hbranch : Twin O (dispatch side x leaf) (dispatch side x' leaf) :=
    twin_dispatch side hx twin_leaf
  refine hnext.onCall fun r r' hr => ?_
  cases hr with
  | raised hf => exact .raised hf
  | value v => exact .both (.value v) hbranch fun _ _ hs => twin_joined hs
  | awaitable hrest => exact .both hrest hbranch fun _ _ hs => twin_joined hs

theorem twin_resume {i i' : Nat} (hi : O.Marks i i') : Twin O (resume i) (resume i') :=
  .deferred (.write (fun _ _ hw => hw.setMark hi true) twin_done)

theorem twin_boundary (inner : Nat) {handler : Script} (hhandler : O.Steady → handler.Steady)
    (hx : O.Contexts x x') (hnext : Twin O next next') :
    Twin O (Process.boundary inner handler x next) (Process.boundary inner handler x' next') := by
  refine .read fun w w' hw => .write (fun _ _ hw => hw.addMark) ?_
  have hmark := hw.newMark
  generalize w.marks.length = i at hmark
  generalize w'.marks.length = i' at hmark
  have hrest : Twin O (restIfMarked i next) (restIfMarked i' next') := by
    refine .read fun w w' hw => ?_
    rw [hw.marked hmark]
    split
    · exact hnext.ignored
    · exact twin_done
  exact Twin.andThen (twin_dispatch inner hx (twin_resume hmark)) fun o o' ho =>
    acting_twin.afterChain i i' next next' (fun _ hlevel => hlevel) (admitted_usage hhandler) hx
      (twin_resume hmark) (.write fun _ _ hw => hw.setMark hmark false) hrest ho

/-- A link does the same in two runs. -/
theorem twin_call (hx : O.Contexts x x') : (l : Link) → (O.Steady → l.Steady) →
    {next next' : Process} → Twin O next next' → Twin O (l.call x next) (l.call x' next')
  | .pass, _, _, _, hnext => hnext
  | .script s, hl, _, _, hnext => by
    refine twin_script ⟨.some hx, .some hnext, .none⟩ fun hO => ?_
    cases hl hO with
    | script hs => exact hs
  | .composer id, _, _, _, hnext => twin_dispatch id hx hnext
  | .concat first second, hl, _, _, hnext => by
    have hboth : O.Steady → first.Steady ∧ second.Steady := fun hO => by
      cases hl hO with
      | concat hfirst hsecond => exact ⟨hfirst, hsecond⟩
    exact twin_concat (fun hn => twin_call hx first (fun hO => (hboth hO).1) hn)
      (twin_call hx second (fun hO => (hboth hO).2) hnext)
  | .lazily c, hl, _, _, hnext => by
    have hc : O.Steady → c.Steady := fun hO => by
      cases hl hO with
      | lazily hc => exact hc
    refine .deferred (acting_twin.pick (Choice.paired_of_steady (fun _ => trivial) hc) hx _ _ ?_)
    rintro b _ ⟨rfl, hb, hgives⟩
    exact twin_building ((hb O.sources_worlds).bind (Build.respects_compose O.sources_worlds))
      (fun hO => (hgives hO _ hO).bind fun mw hmw => Build.gives_compose hmw)
      fun chain hchain => .enter hchain hx hnext fun _ _ ho => (Twin.ended ho).ignored
  | .fork side, _, _, _, hnext => .deferred (twin_fork side hx hnext)
  | .boundary inner handler, hl, _, _, hnext => by
    refine .deferred (twin_boundary inner (fun hO => ?_) hx hnext)
    cases hl hO with
    | boundary _ hhandler => exact hhandler

/-- A composer runs as it does in the other run. -/
theorem twin_run (id : Nat) (hx : O.Contexts x x') :
    Twin O ((Link.composer id).run x) ((Link.composer id).run x') :=
  (twin_call hx (.composer id) (fun _ => .composer id) twin_leaf).ignored

end Process

end UpdateDispatch
