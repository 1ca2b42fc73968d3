import UpdateDispatch.Proofs.Dispatch.Listeners
import UpdateDispatch.Proofs.Dispatch.Passages

/-!
# Containers in programs

In a program of registrations and dispatches, a container that is given in place is asked when it is
registered, and never again: what was asked of such containers is what the registrations gave, in
order (`Program.accesses_among`). A container that is left to a link is at hand there
(`Build.exists_left`). In a dispatch each step asks nothing, or it asks for what a link has
selected, or a script registers something (`Machine.asks_of_trace`), and each call of a link that
selects something asks for it once (`Passage.course`).
-/

namespace UpdateDispatch

open Relation Process

/-! ## Changes of the state -/

/-- The state changes as a computation changes it. It asks these containers in this order if it
succeeds, and the first ones of them if it fails. -/
structure Build.Performs {α : Type} (b : Build α) (names : List String) (w w' : World) : Prop where
  effect : w' = (b.outcome w).2
  first : ∃ asked, asked <+: names ∧ w'.accesses = w.accesses ++ asked
  all : ∀ a, (b.outcome w).1 = .ok a → w'.accesses = w.accesses ++ names

/-- Scripts do not give the containers that are given in place only. -/
def Terms.Unscripted (K : Terms) : Prop :=
  ∀ s, K.steps s → ∀ name ∈ Build.containersOf s.inPlace, name ∉ K.names

/-- Those of some containers that are given in place only. -/
def Terms.among (K : Terms) (names : List String) : List String := names.filter (· ∈ K.names)

section Among

variable {K : Terms} {names : List String}

theorem Terms.among_append (K : Terms) (names names' : List String) :
    K.among (names ++ names') = K.among names ++ K.among names' := List.filter_append ..

theorem Terms.among_eq_nil (h : ∀ name ∈ names, name ∉ K.names) : K.among names = [] :=
  List.filter_eq_nil_iff.mpr fun name hname => by simpa using h name hname

end Among

namespace Build

variable {α β : Type} {K : Terms} {names : List String} {P : α → Prop} {b : Build α} {w w' : World}

theorem Asks.performs (h : Asks K names P b) (hw : w.Spares K) :
    Performs b names w (b.outcome w).2 := by
  have hb := h w hw
  rcases houtcome : b.outcome w with ⟨f | a, w'⟩ <;> rw [houtcome] at hb
  · cases hb with
    | error _ hasked hfirst =>
      exact ⟨by rw [houtcome], ⟨_, hfirst, hasked⟩, fun a ha => by rw [houtcome] at ha; cases ha⟩
  · cases hb with
    | ok _ hasked _ =>
      exact ⟨by rw [houtcome], ⟨names, List.prefix_rfl, hasked⟩, fun _ _ => hasked⟩

/-- Containers that are not named are not asked. -/
theorem Performs.among_eq (h : Performs b names w w') (hnames : ∀ name ∈ names, name ∉ K.names) :
    K.among w'.accesses = K.among w.accesses := by
  obtain ⟨asked, hfirst, hasked⟩ := h.first
  rw [hasked, K.among_append, Terms.among_eq_nil fun name hname => hnames name (hfirst.mem hname),
    List.append_nil]

end Build

/-! ## Programs -/

/-- The states that a program gets to that keeps to the terms, with the registrations that it has
made so far. They succeed. A dispatch may have come to its end or not, and the turns are taken in
any order. Between these, whatever asks and registers nothing may be done. -/
inductive Program (K : Terms) : List UpdateDispatch.Step → World → Prop
  | start (client : Option Client) (me : Identity) : Program K [] { client, me }
  | register {made : List UpdateDispatch.Step} {s : UpdateDispatch.Step} {w w' : World}
      (h : Program K made w) (hs : s.Spares K) (hok : (Build.step s).outcome w = (.ok (), w')) :
      Program K (made ++ [s]) w'
  | dispatch {made : List UpdateDispatch.Step} {ds : List Dispatch} {w : World}
      {past : List Machine} {m : Machine} (h : Program K made w) (hds : ∀ d ∈ ds, d.Spares K)
      (hrun : Machine.Trace (Machine.ofRoots w (ds.map Dispatch.process)) past m) :
      Program K made m.world
  | other {made : List UpdateDispatch.Step} {f : World → World} {w : World}
      (h : Program K made w) (hf : Inert f) : Program K made (f w)

variable {K : Terms} {made : List UpdateDispatch.Step} {w w' : World}

theorem Program.spares (h : Program K made w) : w.Spares K := by
  induction h with
  | start client me => exact World.spares_start client me
  | @register made s w w' _ hs hok ih =>
    have heffect := ih.step hs
    rwa [hok] at heffect
  | dispatch _ hds hrun ih => exact (Machine.booked_of_trace ih hds hrun).1
  | other _ hf ih => exact hf.spares ih

/-! ## Registrations -/

/-- An expression whose container is given in place flattens no such container itself. -/
theorem Expr.notMem_flattened_of_bare {e : Expr} (h : e.bare.Spares K) :
    ∀ name ∈ e.flattened, name ∉ K.names := by
  cases e with
  | container name inner =>
    have hinner : inner.Spares K := h
    exact hinner.notMem_append hinner.notMem_flattened
  | _ => exact Expr.Spares.notMem_flattened h

namespace Step

variable {s : UpdateDispatch.Step}

theorem mem_of_arguments {e : Expr} (h : e ∈ s.arguments) : e ∈ s.inPlace ∨ e ∈ s.offered := by
  cases s with
  | create into mw => exact .inl h
  | register on into r =>
    cases r with
    | branch | route => exact .inr h
    | lazily => cases h
    | _ => exact .inl h
  | _ => cases h

theorem Spares.notMem_flattened (h : s.Spares K) :
    ∀ name ∈ Build.flattenedAll s.arguments, name ∉ K.names := by
  intro name hname
  obtain ⟨e, he, hname⟩ := List.mem_flatMap.mp hname
  obtain ⟨hplace, hoffered, -⟩ := h
  rcases mem_of_arguments he with he | he
  · exact Expr.notMem_flattened_of_bare (hplace e he) name hname
  · exact (hoffered e he).notMem_flattened name hname

end Step

/-- The registrations of links that choose. -/
inductive Registration.Chooses : Registration → Prop
  | branch (p : Probe Listener) (yes no : Spec) : Chooses (.branch p yes no)
  | lazily (p : Probe Listener) (table : List (String × Spec)) (default : Spec) :
      Chooses (.lazily p table default)
  | route (p : Probe Listener) (handlers : List (Json × Spec)) (fallback : Spec) :
      Chooses (.route p handlers fallback)

/-- What a registration has left to a link to choose from: the containers are those that were given,
in their order. -/
inductive Registration.LeavesTo : Registration → Choice → Prop
  | branch {p : Probe Listener} {yes no : Spec} {q : Probe Condition} {ms ms' : List Middleware}
      (hyes : ms.filterMap Middleware.container? = Build.containersOf yes.exprs)
      (hno : ms'.filterMap Middleware.container? = Build.containersOf no.exprs) :
      LeavesTo (.branch p yes no) (.branch q false ms ms')
  | lazily {p : Probe Listener} {table : List (String × Spec)} {default : Spec}
      {q : Probe Condition} : LeavesTo (.lazily p table default) (.table q table default)
  | route {p : Probe Listener} {handlers : List (Json × Spec)} {fallback : Spec}
      {q : Probe Condition} {found : List (Json × Option (List Middleware))}
      {ms : List Middleware}
      (hhandlers : ∀ handler ∈ found, ∃ given ∈ handlers,
        (handler.2.getD []).filterMap Middleware.container? = Build.containersOf given.2.exprs)
      (hfallback : ms.filterMap Middleware.container? = Build.containersOf fallback.exprs) :
      LeavesTo (.route p handlers fallback) (.route q found ms)

namespace Build

variable {α β : Type} {names : List String} {P : α → Prop} {b : Build α} {k : α → Build β}

/-- What follows after middleware was made. -/
theorem exists_of_asks_bind (hasks : Asks K names P b) (hR : ∀ {R}, Sources R → Respects R b)
    (hw : w.Spares K) {a : β} (h : (b >>= k).outcome w = (.ok a, w')) :
    ∃ a₁ events, P a₁ ∧ ({ w with events } : World).Spares K ∧
      (k a₁).outcome { w with events } = (.ok a, w') := by
  obtain ⟨a₁, w₁, hb, h⟩ := exists_of_outcome_bind h
  obtain ⟨events, hevents⟩ := exists_events hR w
  have hasked := hasks w hw
  rw [hb] at hevents hasked
  obtain rfl : w₁ = { w with events } := hevents
  cases hasked with
  | ok hw₁ _ ha => exact ⟨a₁, events, ha, hw₁, h⟩

theorem hooked_of_useLink {id child : Nat} (hid : id < w.composers.length) {l : Link}
    (h : (useLink id l).outcome w = (.ok child, w')) :
    w'.chain child = l ∧ w'.chain id = .concat (w.chain id) (.composer child) := by
  have hhook : (useLink id l).outcome w = (.ok w.composers.length, w.hook id l) := rfl
  rw [hhook] at h
  cases h
  exact ⟨World.chain_hook_new hid, World.chain_hook_self hid⟩

/-- The link of a registration that chooses is the chain of a new composer, which is appended. The
containers that it has at hand are those that were given. -/
theorem exists_left {id child : Nat} (hid : id < w.composers.length) (hw : w.Spares .any)
    {r : Registration} (hr : r.Chooses) (h : (register id r).outcome w = (.ok child, w')) :
    ∃ c, r.LeavesTo c ∧ w'.chain child = .lazily c ∧
      w'.chain id = .concat (w.chain id) (.composer child) := by
  cases hr with
  | branch p yes no =>
    obtain ⟨q, _, -, hw, h⟩ := exists_of_asks_bind (asks_probe p) (fun _ => respects_probe p) hw h
    obtain ⟨ms, _, hyes, hw, h⟩ := exists_of_asks_bind (asks_spec fun e _ => e.bare.spares_any)
      (fun hR => respects_spec hR yes) hw h
    obtain ⟨ms', _, hno, -, h⟩ := exists_of_asks_bind (asks_spec fun e _ => e.bare.spares_any)
      (fun hR => respects_spec hR no) hw h
    have hhooked := hooked_of_useLink (by exact hid) h
    exact ⟨_, .branch hyes.containers hno.containers, hhooked⟩
  | lazily p table default =>
    obtain ⟨q, _, -, -, h⟩ := exists_of_asks_bind (asks_probe p) (fun _ => respects_probe p) hw h
    have hhooked := hooked_of_useLink (by exact hid) h
    exact ⟨_, .lazily, hhooked⟩
  | route p handlers fallback =>
    have hhandlers : ∀ handler ∈ handlers, Asks .any (flattenedAll handler.2.exprs)
        (fun found => ∃ given ∈ handlers,
          (found.getD []).filterMap Middleware.container? = containersOf given.2.exprs)
        handler.2.buildChoice := fun handler hmem =>
      (asks_buildChoice fun e _ => e.bare.spares_any).imp fun found hfound =>
        ⟨handler, hmem, hfound.containers⟩
    obtain ⟨q, _, -, hw, h⟩ := exists_of_asks_bind (asks_probe p) (fun _ => respects_probe p) hw h
    obtain ⟨found, _, hfound, hw, h⟩ := exists_of_asks_bind
      (asks_handlersOf hhandlers (List.forall_mem_nil _))
      (fun hR => respects_handlersOf hR handlers []) hw h
    obtain ⟨ms, _, hms, -, h⟩ := exists_of_asks_bind (asks_buildChoice fun e _ => e.bare.spares_any)
      (fun hR => respects_buildChoice hR fallback) hw h
    have hhooked := hooked_of_useLink (by exact hid) h
    exact ⟨_, .route hfound hms.containers, hhooked⟩

end Build

/-! ## Dispatches -/

namespace Machine

variable {m m' : Machine} {past since : List Machine} {ds : List Dispatch} {b : Owner}

/-- What a step of a dispatch asks, after some states. -/
inductive Asks (K : Terms) (past : List Machine) (m m' : Machine) : Prop
  /-- It asks nothing. -/
  | nothing (h : m'.world.accesses = m.world.accesses)
  /-- It asks for what is selected in a call of a link. The probe has been asked since the call
  began, and has answered. -/
  | selected {b : Owner} {q : Process} {T : Passage} {v : Json} {o : Offer}
      (hfocus : m.focus = some (b, .write (fun _ => (o.perform.outcome m.world).2) q))
      (hpast : Asking T b past) (hanswer : Leads T.asked (.value v))
      (hselect : T.choice.select v = .ok o) (hspares : o.Spares K)
      (h : o.perform.Performs (o.flattened ++ o.containers) m.world m'.world)
  /-- It is a registration that scripts may make. -/
  | registered {b : Owner} {q : Process} {s : UpdateDispatch.Step}
      (hfocus : m.focus = some (b, q)) (hs : K.steps s) (hspares : s.Spares K)
      (h : (Build.step s).Performs
        (Build.flattenedAll s.arguments ++ Build.containersOf s.inPlace) m.world m'.world)

/-- Every step of a dispatch is accounted for. -/
theorem asks_of_trace (hw : w.Spares K) (hds : ∀ d ∈ ds, d.Spares K)
    (hrun : Trace (ofRoots w (ds.map Dispatch.process)) past m) (hnext : Next m m') :
    Asks K past m m' := by
  have hworld : m.world.Spares K := (booked_of_trace hw hds hrun).1
  rcases wrote_of_trace hw hds hrun hnext with heq | ⟨b, f, q, hfocus, heq, hwrote⟩
  · exact .nothing (by rw [heq])
  cases hwrote with
  | inert hf => exact .nothing (heq ▸ (hf m.world).1)
  | selects hT hpast hanswer hselect hf =>
    subst hf
    refine .selected hfocus hpast hanswer hselect (hT.choice.select hselect) ?_
    rw [heq]
    exact (hT.asks_perform hselect).performs hworld
  | registers hs hf =>
    obtain ⟨hsteps, hs⟩ := hs
    refine .registered hfocus hsteps hs ?_
    rw [heq, hf]
    exact (Build.asks_step hs).performs hworld

theorem Asks.among_eq (h : Asks K past m m') (hK : K.Unscripted) :
    K.among m'.world.accesses = K.among m.world.accesses := by
  cases h with
  | nothing h => rw [h]
  | selected _ _ _ _ hspares h => exact h.among_eq hspares.notMem
  | registered _ hs hspares h =>
    exact h.among_eq fun name hname => (List.mem_append.mp hname).elim
      (hspares.notMem_flattened name) (hK _ hs name)

/-- No dispatch asks a container that is given in place only. -/
theorem among_of_trace (hw : w.Spares K) (hK : K.Unscripted) (hds : ∀ d ∈ ds, d.Spares K)
    (hrun : Trace (ofRoots w (ds.map Dispatch.process)) past m) :
    K.among m.world.accesses = K.among w.accesses := by
  induction hrun with
  | nil => rfl
  | snoc hbefore hnext ih =>
    rw [(asks_of_trace hw hds hbefore hnext).among_eq hK, ih]

end Machine

/-! ## Calls of links that choose -/

/-- The running process goes on in one way. -/
theorem Machine.next_iff {m s : Machine} {a : Owner} {p : Process}
    (hfocus : m.focus = some (a, p)) : Next m s ↔ s = m.advance a p :=
  ⟨fun hnext => hnext.eq_advance hfocus, fun heq => heq ▸ .advance hfocus⟩

/-- In these states, what the process of `a` does asks nothing. -/
def Machine.AsksNothing (a : Owner) (states : List Machine) : Prop :=
  ∀ s ∈ states, ∀ q s', s.focus = some (a, q) → Next s s' → s'.world.accesses = s.world.accesses

namespace Passage

open Machine

variable {T : Passage} {a : Owner} {m m' e : Machine} {past since : List Machine}
  {ds : List Dispatch} {o : Offer} {v : Json} {q : Process}

/-- In the state `e` the call has selected something. It reads the state, and then it asks for what
it has selected and enters that. -/
inductive Selects (T : Passage) (a : Owner) (o : Offer) (e : Machine) : Prop
  | intro {v : Json} {e₁ e₂ : Machine} (hanswer : Leads T.asked (.value v))
      (hselect : T.choice.select v = .ok o) (hreads : ∀ s, Next e s ↔ s = e₁)
      (hworld : e₁.world = e.world) (hasks : ∀ s, Next e₁ s ↔ s = e₂)
      (hperforms : o.perform.Performs (o.flattened ++ o.containers) e₁.world e₂.world)
      (hentered : e₂.focus = some (a, T.entered (o.perform.outcome e₁.world).1)) : Selects T a o e

/-- What has come of a call, after the states that were passed since it began. -/
inductive Course (T : Passage) (a : Owner) : List Machine → Process → Prop
  /-- The probe is asked. -/
  | asking {states : List Machine} {p : Process} (hnothing : AsksNothing a states)
      (hleads : Leads T.asked p) : Course T a states (T.asking p)
  /-- The probe has failed, or nothing could be selected for its answer. -/
  | refused {asking after : List Machine} {e : Machine} {f : Fault} {q : Process}
      (hnothing : AsksNothing a asking) (hfocus : e.focus = some (a, T.entered (.error f))) :
      Course T a (asking ++ e :: after) q
  /-- Something was selected. -/
  | selected {asking after : List Machine} {e : Machine} {o : Offer} {q : Process}
      (hnothing : AsksNothing a asking) (hselects : T.Selects a o e) :
      Course T a (asking ++ e :: after) q

/-- Where a process enters a link that chooses, a call of it begins. -/
theorem exists_start {c : Choice} {x : Nat} {next : Process} {k : Outcome → Process}
    (hfocus : m.focus = some (a, .enter (.lazily c) x next k)) (hnext : Next m m') :
    ∃ T : Passage, T.choice = c ∧ T.x = x ∧ T.next = next ∧ m'.focus = some (a, T.start) := by
  refine ⟨⟨c, x, next, fun p => p.andThen k, .andThen k .hole⟩, rfl, rfl, rfl, ?_⟩
  rw [hnext.eq_advance hfocus]
  exact congrArg (fun p => some (a, p.andThen k)) (c.call_lazily x next)

theorem asksNothing_of_busy (h : Keeps a T.asking (Busy T.asked) since) : AsksNothing a since := by
  intro s hs q s' hfocus hnext
  obtain ⟨p, rfl, hleads, hend⟩ := h s hs q hfocus
  rcases hnext.world with heq | ⟨c, f, q', hwrite, heq⟩
  · rw [heq]
  · rw [hfocus] at hwrite
    obtain ⟨rfl, hp⟩ := Prod.mk.inj (Option.some.inj hwrite)
    obtain ⟨p', hawaits⟩ := T.encloses_asking.writes hend hp
    cases T.mute_asked.of_leads (hleads.trans hawaits.leads) with
    | write hf _ => exact heq ▸ (hf s.world).1

theorem selects_of_focus (hw : e.world.Spares .any) (hanswer : Leads T.asked (.value v))
    (hselect : T.choice.select v = .ok o)
    (hfocus : e.focus = some (a, T.around (o.run T.x T.next))) : T.Selects a o e := by
  rw [T.around_run] at hfocus
  exact .intro hanswer hselect (fun _ => next_iff hfocus) rfl (fun _ => next_iff rfl)
    ((Offer.asks_perform o.spares_any).performs hw) rfl

/-- Each call of a link that chooses asks its probe. If something is selected for the answer, the
call asks for that. -/
theorem course (hw : w.Spares .any)
    (hrun : Trace (ofRoots w (ds.map Dispatch.process)) past m)
    (hstart : m.focus = some (a, T.start)) (hsince : Trace m since m')
    (hq : m'.focus = some (a, q)) : T.Course a since q := by
  have hreachable : Reachable m :=
    ⟨w, _, List.forall_mem_map.mpr fun d _ => d.dispatches, hrun.reaches⟩
  obtain ⟨place, huniform⟩ := hreachable.uniform
  rw [T.start_eq] at hstart
  rcases huniform.keeps_or_ends (Trait.upheld_sound _) T.surrounds hstart hsince with
    ⟨hkeeps, hend⟩ | ⟨before, e, after, o, rfl, hbefore, -, hkeeps, hends⟩
  · obtain ⟨p, rfl, hleads⟩ := hend q hq
    exact .asking (asksNothing_of_busy hkeeps) hleads
  have hnothing : AsksNothing a before := asksNothing_of_busy hkeeps
  have hfocus : e.focus = some (a, T.asking (ended o)) := by
    rw [hends.focus]
    cases o <;> rfl
  cases o with
  | error f => exact .refused hnothing (hfocus.trans (by rw [ended, T.asking_raised]))
  | ok v =>
    rcases hselect : T.choice.select v with f | o
    · exact .refused hnothing (hfocus.trans (by rw [ended, asking_refused hselect]))
    · obtain ⟨_, hreached⟩ := exists_trace (hrun.reaches.trans hbefore.reaches)
      have hspares : e.world.Spares .any :=
        (booked_of_trace hw (fun d _ => d.spares_any) hreached).1
      exact .selected hnothing (selects_of_focus hspares hends.leads hselect
        (hfocus.trans (by rw [ended, asking_ok hselect])))

end Passage

/-! ## From the first registration on -/

/-- Of the containers that are given in place only, those were asked that the registrations of the
program gave, each of them once and in order, unless scripts give some as well. -/
theorem Program.accesses_among (h : Program K made w) (hK : K.Unscripted) :
    K.among w.accesses = K.among (made.flatMap fun s => Build.containersOf s.inPlace) := by
  induction h with
  | start client me => rfl
  | register h hs hok ih =>
    rw [accesses_step h.spares.any hok, K.among_append, K.among_append,
      Terms.among_eq_nil hs.notMem_flattened, List.nil_append, ih, List.flatMap_append,
      K.among_append, List.flatMap_singleton]
  | dispatch h hds hrun ih => rw [Machine.among_of_trace h.spares hK hds hrun, ih]
  | other _ hf ih => rw [(hf _).1, ih]

/-- How containers are asked in a program that has got to this state. Of those that are given in
place only, the registrations have asked what they were given, in order, unless scripts give some as
well. A registration that succeeds asks what its arguments flatten and what it is given in place,
and leaves the rest to its link. In a dispatch each step asks nothing, or what was selected in a
call of a link, or it is a registration that a script makes. A call begins whenever a process enters
such a link; it gets to the selection and asks that, and it does so once. -/
structure World.AsksAsGiven (K : Terms) (made : List UpdateDispatch.Step) (w : World) : Prop where
  before : K.Unscripted →
    K.among w.accesses = K.among (made.flatMap fun s => Build.containersOf s.inPlace)
  registering : ∀ {s : UpdateDispatch.Step} {w' : World}, (Build.step s).outcome w = (.ok (), w') →
    w'.accesses = w.accesses ++ (Build.flattenedAll s.arguments ++ Build.containersOf s.inPlace)
  leaving : ∀ {id child : Nat} {r : Registration} {w' : World}, id < w.composers.length →
    r.Chooses → (Build.register id r).outcome w = (.ok child, w') →
    ∃ c, r.LeavesTo c ∧ w'.chain child = .lazily c ∧
      w'.chain id = .concat (w.chain id) (.composer child)
  dispatching : ∀ {ds : List Dispatch} {past : List Machine} {m m' : Machine},
    (∀ d ∈ ds, d.Spares K) → Machine.Trace (Machine.ofRoots w (ds.map Dispatch.process)) past m →
    Machine.Next m m' → Machine.Asks K past m m'
  entering : ∀ {m m' : Machine} {a : Owner} {c : Choice} {x : Nat} {next : Process}
    {k : Outcome → Process}, m.focus = some (a, .enter (.lazily c) x next k) → Machine.Next m m' →
    ∃ T : Passage, T.choice = c ∧ T.x = x ∧ T.next = next ∧ m'.focus = some (a, T.start)
  traversing : ∀ {ds : List Dispatch} {past since : List Machine} {m m' : Machine} {T : Passage}
    {a : Owner} {q : Process}, Machine.Trace (Machine.ofRoots w (ds.map Dispatch.process)) past m →
    m.focus = some (a, T.start) → Machine.Trace m since m' → m'.focus = some (a, q) →
    T.Course a since q
  once : ∀ {T : Passage} {a : Owner} {past since : List Machine} {m : Machine} {v : World}
    {q : Process}, m.focus = some (a, .write (fun _ => v) q) →
    Machine.Asking T a (past ++ m :: since) → Machine.Asking T a since

/-- In every program, a container that is given in place is asked for its function when it is
registered, and one that is left to a link in each call of the link that selects it. There are terms
that every program keeps to. -/
theorem containers_asked_as_given (h : Program K made w) :
    (∀ s : UpdateDispatch.Step, s.Spares .any) ∧ (∀ d : Dispatch, d.Spares .any) ∧
      w.AsksAsGiven K made :=
  ⟨UpdateDispatch.Step.spares_any, Dispatch.spares_any,
    { before := h.accesses_among
      registering := accesses_step h.spares.any
      leaving := fun hid hr hok => Build.exists_left hid h.spares.any hr hok
      dispatching := Machine.asks_of_trace h.spares
      entering := Passage.exists_start
      traversing := Passage.course h.spares.any
      once := Machine.Asking.of_write }⟩

/-- A script that lets the update pass. -/
def passing : Expr := .script [.next] false

/-- A composer that is given the container `a`. -/
def createStep : UpdateDispatch.Step := .create (some "composer") [.container "a" passing]

/-- A branch on the composer that is left the container `b` twice. -/
def branchStep : UpdateDispatch.Step :=
  .register "composer" none (.branch { source := .constant (.bool true) }
    (.many [.container "b" passing, .container "b" passing]) (.many []))

/-- The state after the first of these steps. -/
def createdWorld : World := ((Build.step createStep).outcome { client := none, me := default }).2

/-- The state after both of them. -/
def branchWorld : World := ((Build.step branchStep).outcome createdWorld).2

/-- A run of the composer for a new context. -/
def branchRun (k : Nat) : Machine :=
  Machine.run k (Machine.ofRoots (branchWorld.addContext default) [(Link.composer 0).run 0])

/-- What the program keeps to: `a` is given in place, and no script registers anything. -/
def branchTerms : Terms where
  names := ["a"]
  steps _ := False

theorem spares_passing : passing.Spares branchTerms := .script fun s hs => by simp at hs

theorem spares_createStep : createStep.Spares branchTerms :=
  .intro (List.forall_mem_singleton.mpr spares_passing) (List.forall_mem_nil _)
    fun _ => List.not_mem_nil.elim

theorem spares_branchStep : branchStep.Spares branchTerms := by
  have hb : (Expr.container "b" passing).Spares branchTerms :=
    .container (by decide) spares_passing
  exact .intro (List.forall_mem_nil _)
    (List.forall_mem_cons.mpr ⟨hb, List.forall_mem_singleton.mpr hb⟩)
    fun _ => List.not_mem_nil.elim

/-- The container `a` was asked when the composer was made, and `b` twice when the branch was
called. -/
theorem containers_asked_of_branch :
    Program branchTerms [createStep, branchStep] (branchRun 15).world ∧
      (branchRun 15).world.accesses = ["a", "b", "b"] ∧
      branchTerms.among (branchRun 15).world.accesses = ["a"] ∧
      (branchRun 15).world.AsksAsGiven branchTerms [createStep, branchStep] := by
  have hcreated : Program branchTerms [createStep] createdWorld :=
    .register (.start none default) spares_createStep rfl
  have hbranched : Program branchTerms [createStep, branchStep] branchWorld :=
    .register hcreated spares_branchStep rfl
  have hroots : ∀ d ∈ [Dispatch.run (.composer 0) 0], d.Spares branchTerms :=
    List.forall_mem_singleton.mpr (Link.Spares.composer 0)
  have hrun : Machine.Trace (Machine.ofRoots (branchWorld.addContext default)
      ([.run (.composer 0) 0].map Dispatch.process))
      ((List.range 15).map branchRun) (branchRun 15) := Machine.trace_run _ 15 (by decide +kernel)
  have hprogram : Program branchTerms [createStep, branchStep] (branchRun 15).world :=
    (hbranched.other (inert_addContext default)).dispatch hroots hrun
  obtain ⟨-, -, hasks⟩ := containers_asked_as_given hprogram
  exact ⟨hprogram, rfl, hasks.before (fun _ => False.elim), hasks⟩

end UpdateDispatch
