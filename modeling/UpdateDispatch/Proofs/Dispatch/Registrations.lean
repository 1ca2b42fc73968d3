import UpdateDispatch.Dispatch.Registration
import Mathlib

/-!
# Registration in two states

Middleware is built out of what the registers hold, and it is noted which containers are asked. So
it comes out the same in any two states with the same registers, whatever else a relation of states
(`Build.Sources`) says of them.

Registrations look at composers and the default identity as well, and they change composers and
registers. They do the same in any two states that agree on these (`Build.respects_step`), if the
relation (`Build.Basis`) has room for the changes.
-/

namespace UpdateDispatch

/-- A relation of states on which the building of middleware can rely, and that it keeps. -/
structure Build.Sources (R : World → World → Prop) : Prop where
  registers : ∀ {w w'}, R w w' → w'.registers = w.registers
  accessed : ∀ {w w'}, R w w' → ∀ name,
    R (w.record (.accessed name)) (w'.record (.accessed name))

/-- A relation of states on which registrations can rely, and that they keep. -/
structure Build.Basis (R : World → World → Prop) : Prop extends Build.Sources R where
  composers : ∀ {w w'}, R w w' → w'.composers = w.composers
  me : ∀ {w w'}, R w w' → w'.me = w.me
  setComposers : ∀ {w w'}, R w w' → ∀ composers,
    R { w with composers } { w' with composers }
  setRegisters : ∀ {w w'}, R w w' → ∀ registers,
    R { w with registers } { w' with registers }

namespace Build

variable {α β : Type} {R : World → World → Prop}

/-- A computation that does the same in related states and keeps them related. -/
def Respects (R : World → World → Prop) (b : Build α) : Prop := ∀ w w', R w w' →
  (b.outcome w').1 = (b.outcome w).1 ∧ R (b.outcome w).2 (b.outcome w').2

/-- A computation that fails leaves out what would follow. -/
theorem outcome_bind (b : Build α) (k : α → Build β) (w : World) :
    (b >>= k).outcome w = match b.outcome w with
      | (.ok a, w') => (k a).outcome w'
      | (.error f, w') => (.error f, w') := by
  simp only [outcome, Bind.bind, ExceptT.bind, ExceptT.mk, ExceptT.bindCont, StateT.run,
    StateT.bind]
  rcases b w with ⟨_ | a, w'⟩ <;> rfl

/-- What relates the states before and after two computations relates those before and after
both. -/
theorem related_bind {Q : World → World → Prop} (htrans : ∀ {u v w}, Q u v → Q v w → Q u w)
    {b : Build α} {k : α → Build β} (h : ∀ w, Q w (b.outcome w).2)
    (hk : ∀ a w, Q w ((k a).outcome w).2) (w : World) : Q w ((b >>= k).outcome w).2 := by
  rw [outcome_bind]
  have hb := h w
  rcases hw : b.outcome w with ⟨f | a, w'⟩ <;> rw [hw] at hb
  · exact hb
  · exact htrans hb (hk a w')

theorem respects_pure (a : α) : Respects R (pure a) := fun _ _ h => ⟨rfl, h⟩

theorem respects_throw (f : Fault) : Respects R (throw f : Build α) := fun _ _ h => ⟨rfl, h⟩

theorem respects_modify {f : World → World} (h : ∀ w w', R w w' → R (f w) (f w')) :
    Respects R (modify f : Build Unit) := fun w w' hw => ⟨rfl, h w w' hw⟩

theorem Respects.bind {b : Build α} {k : α → Build β} (h : Respects R b)
    (hk : ∀ a, Respects R (k a)) : Respects R (b >>= k) := by
  intro w w' hw
  obtain ⟨houtcome, hrest⟩ := h w w' hw
  rw [outcome_bind, outcome_bind]
  rcases hb : b.outcome w with ⟨f | a, s⟩ <;> rcases hb' : b.outcome w' with ⟨f' | a', s'⟩ <;>
    rw [hb, hb'] at houtcome hrest <;> cases houtcome
  · exact ⟨rfl, hrest⟩
  · exact hk a s s' hrest

/-- A computation that goes on with a part of the state on which related states agree. -/
theorem respects_get {k : World → Build α}
    (h : ∀ w w', R w w' → k w' = k w ∧ Respects R (k w)) : Respects R (get >>= k) := by
  intro w w' hw
  obtain ⟨heq, hk⟩ := h w w' hw
  have hboth := hk w w' hw
  rw [← congrArg (fun b => b.outcome w') heq] at hboth
  rw [outcome_bind, outcome_bind]
  exact hboth

theorem respects_ofExcept (e : Except Fault α) : Respects R (ofExcept e) := by
  cases e with
  | ok a => exact respects_pure a
  | error f => exact respects_throw f

theorem respects_mapM {f : α → Build β} (h : ∀ a, Respects R (f a)) (as : List α) :
    Respects R (as.mapM f) := by
  induction as with
  | nil => exact respects_pure []
  | cons a as ih =>
    rw [List.mapM_cons]
    exact (h a).bind fun b => ih.bind fun bs => respects_pure _

/-! ## Middleware -/

section Sources

variable (hR : Sources R)

include hR

theorem respects_flatten (m : Middleware) : Respects R m.flatten := by
  cases m with
  | link l => exact respects_pure l
  | composer id => exact respects_pure _
  | container name inner =>
    exact (respects_modify fun _ _ hw => hR.accessed hw name).bind fun _ => respects_pure inner
  | other _ => exact respects_throw _

theorem respects_composeAfter (first : Link) (mw : List Middleware) :
    Respects R (composeAfter first mw) := by
  induction mw generalizing first with
  | nil => exact respects_pure first
  | cons m rest ih => exact (respects_flatten hR m).bind fun l => ih _

theorem respects_compose (mw : List Middleware) : Respects R (compose mw) := by
  cases mw with
  | nil => exact respects_pure Link.pass
  | cons m rest => exact (respects_flatten hR m).bind fun l => respects_composeAfter hR l rest

theorem respects_named (register : String) : Respects R (Build.named register) := by
  refine respects_get fun w w' hw => ⟨by rw [hR.registers hw], ?_⟩
  split
  · exact respects_pure _
  · exact respects_throw _

theorem respects_composerNamed (register : String) : Respects R (composerNamed register) := by
  refine (respects_named hR register).bind fun m => ?_
  split
  · exact respects_pure _
  · exact respects_throw _
  · exact respects_throw _

theorem respects_expr : (e : Expr) → Respects R e.build
  | .pass => respects_pure _
  | .named register => respects_named hR register
  | .value _ => respects_pure _
  | .flat e =>
    (respects_expr e).bind fun m => (respects_flatten hR m).bind fun _ => respects_pure _
  | .joined first second =>
    (respects_expr first).bind fun m => (respects_flatten hR m).bind fun _ =>
      (respects_expr second).bind fun m => (respects_flatten hR m).bind fun _ => respects_pure _
  | .container _ inner =>
    (respects_expr inner).bind fun m => (respects_flatten hR m).bind fun _ => respects_pure _
  | .script _ _ => respects_pure _

theorem respects_buildAll (es : List Expr) : Respects R (buildAll es) :=
  respects_mapM (respects_expr hR) es

theorem respects_spec (s : Spec) : Respects R s.build := by
  cases s with
  | one e => exact (respects_expr hR e).bind fun _ => respects_pure _
  | many es => exact respects_buildAll hR es

theorem respects_buildChoice (s : Spec) : Respects R s.buildChoice := by
  cases s with
  | one e =>
    refine (respects_expr hR e).bind fun m => ?_
    split <;> exact respects_pure _
  | many es => exact (respects_buildAll hR es).bind fun _ => respects_pure _

theorem respects_handlersOf (handlers : List (Json × Spec))
    (acc : List (Json × Option (List Middleware))) : Respects R (handlersOf handlers acc) := by
  induction handlers generalizing acc with
  | nil => exact respects_pure acc
  | cons h rest ih =>
    exact (respects_buildChoice hR h.2).bind fun _ => (respects_ofExcept _).bind fun _ => ih _

omit hR in
theorem respects_probe (p : Probe Listener) : Respects R p.build := by
  unfold Probe.build
  split
  · exact (respects_ofExcept _).bind fun _ => respects_pure _
  · exact respects_pure _
  · exact respects_pure _

end Sources

/-! ## Combinators -/

variable (hR : Basis R)

include hR

theorem Basis.addComposer (c : Composer) : Respects R (modify (World.addComposer c)) :=
  respects_modify fun w w' hw => by
    rw [World.addComposer, World.addComposer, hR.composers hw]
    exact hR.setComposers hw _

theorem Basis.modifyComposer (id : Nat) (f : Composer → Composer) :
    Respects R (modify (World.modifyComposer id f)) := respects_modify fun w w' hw => by
  rw [World.modifyComposer, World.modifyComposer, hR.composers hw]
  exact hR.setComposers hw _

theorem Basis.bot? {w w' : World} (h : R w w') (id : Nat) : w'.bot? id = w.bot? id := by
  rw [World.bot?, World.bot?, hR.composers h]

theorem respects_newComposer (c : Composer) : Respects R (newComposer c) :=
  respects_get fun w w' hw => ⟨by rw [hR.composers hw],
    (hR.addComposer c).bind fun _ => respects_pure _⟩

theorem respects_composerOf (mw : List Middleware) : Respects R (composerOf mw) :=
  (respects_compose hR.toSources mw).bind fun _ => respects_newComposer hR _

theorem respects_use (id : Nat) (mw : List Middleware) : Respects R (use id mw) :=
  (respects_composerOf hR mw).bind fun _ => (hR.modifyComposer id _).bind fun _ => respects_pure _

theorem respects_filter (id : Nat) (p : Probe Condition) (negated : Bool)
    (mw : List Middleware) : Respects R (filter id p negated mw) :=
  (respects_composerOf hR mw).bind fun _ => (respects_use hR id _).bind fun _ => respects_pure _

theorem respects_fork (id : Nat) (mw : List Middleware) : Respects R (fork id mw) :=
  (respects_composerOf hR mw).bind fun _ => (respects_use hR id _).bind fun _ => respects_pure _

theorem respects_boundary (id : Nat) (handler : Script) (mw : List Middleware) :
    Respects R (boundary id handler mw) :=
  (respects_composerOf hR mw).bind fun _ => (respects_use hR id _).bind fun _ => respects_pure _

theorem respects_listen (id : Nat) (l : Listener) (mw : List Middleware) :
    Respects R (listen id l mw) := by
  have hlisten : ∀ u : Unit, Respects R (do
      let condition ← ofExcept l.condition
      filter id { source := .condition condition } false mw) := fun _ =>
    (respects_ofExcept _).bind fun _ => respects_filter hR id _ false mw
  refine respects_get fun w w' hw => ⟨by rw [hR.bot? hw], ?_⟩
  split
  · exact (respects_ofExcept _).bind fun kinds => (hR.modifyComposer id _).bind hlisten
  · exact (respects_pure ()).bind hlisten

theorem respects_register (id : Nat) (r : Registration) : Respects R (register id r) := by
  cases r with
  | use mw => exact (respects_buildAll hR.toSources mw).bind fun _ => respects_use hR id _
  | fork mw => exact (respects_buildAll hR.toSources mw).bind fun _ => respects_fork hR id _
  | filter p mw | drop p mw =>
    exact (respects_buildAll hR.toSources mw).bind fun _ => (respects_probe p).bind fun _ =>
      respects_filter hR id _ _ _
  | branch p yes no =>
    exact (respects_probe p).bind fun _ => (respects_spec hR.toSources yes).bind fun _ =>
      (respects_spec hR.toSources no).bind fun _ => respects_use hR id _
  | lazily factory table default =>
    exact (respects_probe factory).bind fun _ => respects_use hR id _
  | route router handlers fallback =>
    exact (respects_probe router).bind fun _ =>
      (respects_handlersOf hR.toSources handlers []).bind fun _ =>
        (respects_buildChoice hR.toSources fallback).bind fun _ => respects_use hR id _
  | boundary actions plain mw =>
    exact (respects_buildAll hR.toSources mw).bind fun _ => respects_boundary hR id _ _
  | listen l mw => exact (respects_buildAll hR.toSources mw).bind fun _ => respects_listen hR id l _

/-! ## Steps -/

theorem respects_store (into : Option String) (m : Middleware) : Respects R (store into m) := by
  cases into with
  | none => exact respects_pure ()
  | some register =>
    refine respects_modify fun w w' hw => ?_
    rw [hR.registers hw]
    exact hR.setRegisters hw _

theorem respects_newBot (into : Option String) (b : BotState) : Respects R (newBot into b) :=
  (respects_newComposer hR _).bind fun _ => respects_store hR into _

omit hR in
theorem respects_identityOf (v : Json) : Respects R (identityOf v) := by
  unfold identityOf
  split
  · split
    · exact respects_pure _
    · exact respects_throw _
  · exact respects_pure _

/-- A step of registration does the same in related states. -/
theorem respects_step (s : Step) : Respects R (step s) := by
  cases s with
  | create into mw =>
    exact (respects_buildAll hR.toSources mw).bind fun _ => (respects_composerOf hR _).bind fun _ =>
      respects_store hR into _
  | createBot into identity throws =>
    cases identity with
    | some v => exact (respects_identityOf v).bind fun _ => respects_newBot hR into _
    | none =>
      have hme : Respects R (do pure (some (← get).me)) :=
        respects_get fun w w' hw => ⟨by rw [hR.me hw], respects_pure _⟩
      exact hme.bind fun identity => respects_newBot hR into { identity, contextThrows := throws }
  | createBotFrom into fields =>
    exact (respects_ofExcept _).bind fun _ => respects_newBot hR into _
  | register on into r =>
    exact (respects_composerNamed hR.toSources on).bind fun id =>
      (respects_register hR id r).bind fun _ => respects_store hR into _
  | grab on into =>
    exact (respects_composerNamed hR.toSources on).bind fun _ => respects_store hR into _
  | handle on actions plain =>
    refine (respects_composerNamed hR.toSources on).bind fun id => respects_get fun w w' hw => ?_
    refine ⟨by rw [hR.bot? hw], ?_⟩
    split
    · exact hR.modifyComposer id _
    · exact respects_throw _

end Build

end UpdateDispatch
