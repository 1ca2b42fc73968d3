import UpdateDispatch.Proofs.Dispatch.Batches
import UpdateDispatch.Proofs.Dispatch.Parallel
import UpdateDispatch.Proofs.Dispatch.SingleRoot

/-!
# Updates of a batch, as if alone

A bot keeps nothing of one update for the next one. An update that is attempted in a batch, when the
batch runs alone and the bots are what they were before, goes step by step as it does in a batch of
its own in a state with the same bots (`Machine.attempt_as_alone`). What is new has other numbers in
the two runs, so they are `Machine.Parallel`, up to the ends of `Process.Over`. The bots stay what
they are if neither chains nor handlers register anything (`Machine.sameBots_of_steady`).

A run that is compared with itself shows what it can log. Twins log nothing critical, and the only
process of a batch that does is an end of the comparison (`Machine.calm_or_left`).
`Machine.batch_policy` puts this together with the course of the batch.
-/

namespace UpdateDispatch

open Relation

namespace Process

open UpdateDispatch.Bot

variable {O : Origin} {id : Nat} {rest rest' last : List Json} {f f' : Fault}

/-! ## Bots in two runs -/

theorem twin_report (hf : f.Same O.Contexts f')
    (hx : Option.Rel O.Contexts (failureContext f) (failureContext f')) :
    Twin O (report id f) (report id f') := by
  refine .read fun w w' hw => ?_
  rw [hw.bot?]
  split
  · next b hb =>
    dsimp only
    split
    · next handler hhandler =>
      exact twin_script ⟨hx, .none, .some hf⟩ fun hO => (hw.world_steady hO).handler hb _ hhandler
    · exact .deferred (acting_twin.defaultHandler (fun _ hlevel => hlevel) hf hx)
  · exact twin_raised _

/-- The ends of the handling of an update, in a batch that goes on with the rest and by itself. -/
inductive Over (O : Origin) (id : Nat) (rest : List Json) : Process → Process → Prop
  | returned : Over O id rest (handleUpdates id rest) done
  | raised {f f' : Fault} (h : f.Same O.Contexts f') : Over O id rest (raised f) (raised f')
  | unhandled (updateId : Json) (f : Fault) :
      Over O id rest (log (.unhandled updateId) (.raised f)) (log (.unhandled updateId) (.raised f))

theorem failureContext_fault (t : Throw) : failureContext (t.fault none) = none := by
  unfold Throw.fault
  split <;> rfl

theorem failureContext_of_get {u : Json} {key : String} (h : u.get key = .error f) :
    failureContext f = none := by
  unfold Json.get at h
  split at h <;> cases h
  rfl

section Attempts

variable {T : Process → Process → Prop}
  (hrest : Towards O T (handleUpdates id rest) (handleUpdates id rest'))
  (hraised : ∀ f f', f.Same O.Contexts f' → T (.raised f) (.raised f'))

include hrest hraised

/-- A failure that is reported, and the rest of the batch. -/
theorem towards_report (hf : f.Same O.Contexts f')
    (hx : Option.Rel O.Contexts (failureContext f) (failureContext f')) :
    Towards O T ((report id f).followedBy (handleUpdates id rest))
      ((report id f').followedBy (handleUpdates id rest')) :=
  (twin_report hf hx).andThen fun o o' ho => by
    cases ho with
    | ok v => exact hrest
    | error hg => exact .last (hraised _ _ hg)

/-- A fault from outside of the chain. -/
theorem towards_refused (u : Json) (hf : failureContext f = none)
    (hunhandled : ¬ isFailure f → ∀ updateId, u.get "update_id" = .ok updateId →
      T (log (.unhandled updateId) (.raised f)) (log (.unhandled updateId) (.raised f))) :
    Towards O T (afterUpdate id u rest (.error f)) (afterUpdate id u rest' (.error f)) := by
  unfold afterUpdate
  dsimp only
  split
  · exact towards_report hrest hraised (.refl f) (hf ▸ .none)
  · next hfailure =>
    split
    · next updateId hget => exact .last (hunhandled hfailure updateId hget)
    · exact .last (hraised _ _ (.refl _))

/-- Two batches that begin with the same update, from the state in which they do. -/
theorem towards_update (u : Json) {w w' : World} (hw : O.Worlds w w')
    (hunhandled : ∀ f, admits w id = .error f → ¬ isFailure f → ∀ updateId,
      u.get "update_id" = .ok updateId →
        T (log (.unhandled updateId) (.raised f)) (log (.unhandled updateId) (.raised f))) :
    ∃ k k', handleUpdates id (u :: rest) = .read k ∧ handleUpdates id (u :: rest') = .read k' ∧
      Towards O T (k w) (k' w') := by
  refine ⟨_, _, handleUpdates_cons id u rest, handleUpdates_cons id u rest', ?_⟩
  unfold admits at hunhandled
  dsimp only
  rw [hw.bot?]
  rcases hb : w.bot? id with _ | b
  · rw [hb] at hunhandled
    exact towards_refused hrest hraised u rfl (hunhandled _ rfl)
  rw [hb] at hunhandled
  dsimp only at hunhandled ⊢
  rcases hme : b.identity with _ | me
  · rw [hme] at hunhandled
    exact towards_refused hrest hraised u rfl (hunhandled _ rfl)
  rw [hme] at hunhandled
  dsimp only at hunhandled ⊢
  rcases hget : u.get "update_id" with f | updateId
  · refine towards_refused hrest hraised u (failureContext_of_get hget) fun _ _ hget' => ?_
    rw [hget] at hget'
    cases hget'
  refine .log ?_ (.refl (.processing _)) nofun
  rcases ht : b.contextThrows with _ | t
  case some =>
    rw [ht] at hunhandled
    exact towards_refused hrest hraised u (failureContext_fault _) (hunhandled _ rfl)
  refine .write (fun _ _ hw => hw.addContext _) ?_
  -- the new contexts have other numbers; from here on all that counts is that they correspond
  have hx := hw.newContext
  generalize w.contexts.length = x at hx
  generalize w'.contexts.length = x' at hx
  rw [andThen_andThen, andThen_andThen]
  refine (twin_run id hx).andThen fun o o' ho => ?_
  cases ho with
  | ok v => exact hrest
  | error hf =>
    exact .log (towards_report hrest hraised (.failure hf (.some hx)) (.some hx))
      (.refl (.chainFailed _)) nofun

end Attempts

/-- Two batches that begin with the same update and go on in the same way. -/
theorem towards_handleUpdates
    (hrest : Towards O (Over O id last) (handleUpdates id rest) (handleUpdates id rest'))
    (u : Json) :
    Towards O (Over O id last) (handleUpdates id (u :: rest)) (handleUpdates id (u :: rest')) := by
  refine .read fun w w' hw => ?_
  obtain ⟨k, k', hk, hk', h⟩ := towards_update hrest (fun _ _ hf => .raised hf) u hw
    fun f _ _ updateId _ => .unhandled updateId f
  cases hk
  cases hk'
  exact h

/-- A batch and itself. -/
theorem towards_self (us : List Json) :
    Towards O (Over O id []) (handleUpdates id us) (handleUpdates id us) := by
  induction us with
  | nil => exact .last .returned
  | cons u rest ih => exact towards_handleUpdates ih u

end Process

namespace Machine

open Process UpdateDispatch.Bot

variable {m m' : Machine} {a : Owner} {p : Process}

/-! ## States with the same bots -/

/-- States that differ in nothing but what has happened in them. -/
structure SameBots (w w' : World) : Prop where
  composers : w'.composers = w.composers
  registers : w'.registers = w.registers
  client : w'.client = w.client
  me : w'.me = w.me

/-- Since `w` nothing critical has been logged, and neither the client nor the identity is another
one. -/
structure Calm (w w' : World) : Prop where
  client : w'.client = w.client
  me : w'.me = w.me
  notices : ∃ ns, w'.notices = w.notices ++ ns ∧ ∀ n ∈ ns, n.level ≠ .critical

variable {O : Origin} {T : Process → Process → Prop} {m' : Machine}

theorem worlds_origin (h : SameBots O.left.world O.right.world) :
    O.Worlds O.left.world O.right.world where
  composers := h.composers
  registers := h.registers
  client := h.client
  me := h.me
  unchanged := ⟨rfl, rfl⟩
  steady _ := ⟨rfl, rfl⟩
  contexts := ⟨[], (List.append_nil _).symm, (List.append_nil _).symm⟩
  marks := ⟨[], (List.append_nil _).symm, (List.append_nil _).symm⟩
  events := ⟨[], [], (List.append_nil _).symm, (List.append_nil _).symm, .nil⟩
  notices := ⟨[], [], (List.append_nil _).symm, (List.append_nil _).symm, .nil, nofun⟩

/-- States with the same bots are parallel if the same processes run in them. -/
theorem parallel_origin (h : SameBots O.left.world O.right.world)
    (hfocus : Option.Rel (fun e e' => Peers O e.1 e'.1 ∧ Towards O (ends T e.1) e.2 e'.2)
      O.left.focus O.right.focus)
    (hready : List.Forall₂ (TurnTwin O T) O.left.ready O.right.ready)
    (hroots : List.Forall₂ (Option.Rel (Outcome.Same O.Contexts)) O.left.roots O.right.roots) :
    Parallel O T O.left O.right where
  world := worlds_origin h
  guards := ⟨[], (List.append_nil _).symm, (List.append_nil _).symm⟩
  focus := hfocus
  ready := hready
  joins := ⟨[], [], (List.append_nil _).symm, (List.append_nil _).symm, .nil⟩
  roots := hroots

theorem Solo.parallel {p' : Process} (h : Solo O.left p) (h' : Solo O.right p')
    (hbots : SameBots O.left.world O.right.world) (hp : Towards O T p p') :
    Parallel O T O.left O.right := by
  refine parallel_origin hbots ?_ ?_ ?_
  · rw [h.focus, h'.focus]
    exact .some ⟨.root 0, hp⟩
  · rw [h.ready, h'.ready]
    exact .nil
  · rw [h.roots, h'.roots]
    exact .cons .none .nil

theorem SameBots.symm {w w' : World} (h : SameBots w w') : SameBots w' w :=
  ⟨h.composers.symm, h.registers.symm, h.client.symm, h.me.symm⟩

theorem SameBots.trans {w₁ w₂ w₃ : World} (h : SameBots w₁ w₂) (h' : SameBots w₂ w₃) :
    SameBots w₁ w₃ :=
  ⟨h'.composers.trans h.composers, h'.registers.trans h.registers, h'.client.trans h.client,
    h'.me.trans h.me⟩

theorem Parallel.calm (h : Parallel O T m m') : Calm O.right.world m'.world := by
  obtain ⟨_, ns, -, hnotices, -, hcalm⟩ := h.world.notices
  exact ⟨h.world.unchanged.1, h.world.unchanged.2, ns, hnotices, hcalm⟩

/-- What registers nothing leaves the bots as they are. -/
theorem Parallel.sameBots (h : Parallel O T m m') (hO : O.Steady)
    (hbots : SameBots O.left.world O.right.world) : SameBots O.right.world m'.world := by
  obtain ⟨hcomposers, hregisters⟩ := h.world.steady hO
  exact ⟨h.world.composers.trans (hcomposers.trans hbots.composers.symm),
    h.world.registers.trans (hregisters.trans hbots.registers.symm), h.world.unchanged.1,
    h.world.unchanged.2⟩

/-! ## Batches that run alone -/

/-- The machine that handles a batch and does nothing else. -/
def batchStart (w : World) (id : Nat) (us : List Json) : Machine :=
  ofRoots w [handleUpdates id us]

variable {w w' : World} {id : Nat} {us rest : List Json} {u : Json}

theorem dispatches_batch (id : Nat) (us : List Json) :
    ∀ p ∈ [handleUpdates id us], Dispatches p := by simpa using .handleUpdates id us

theorem reachable_batch (w : World) (id : Nat) (us : List Json) (n : Nat) :
    Reachable (run n (batchStart w id us)) := ⟨w, _, dispatches_batch id us, reaches_run n _⟩

theorem oneRoot_batch (w : World) (id : Nat) (us : List Json) (n : Nat) :
    OneRoot (run n (batchStart w id us)) :=
  (oneRoot_ofRoots w _).of_reaches (reachable_batch w id us 0) (reaches_run n _)

theorem solo_batch {n : Nat} (hfocus : (run n (batchStart w id us)).focus = some (.root 0, p))
    (hp : ∀ o, ¬ Ended p o) : Solo (run n (batchStart w id us)) p where
  focus := hfocus
  ready := (oneRoot_batch w id us n).ready_eq_nil (reachable_batch w id us n) hfocus
  roots := roots_of_running (.handleUpdates id us) (reaches_run n _) hfocus hp

/-- The run of a batch is left in the state `m` with a fault that came from outside of the chain.
What it comes to by then, as `s`. -/
structure Left (w : World) (m s : Machine) (updateId : Json) (f : Fault) : Prop where
  calm : Calm w m.world
  focus : m.focus = some (.root 0, log (.unhandled updateId) (.raised f))
  world : s.world = m.world.log (.unhandled updateId)
  stopped : ∀ {p}, s.focus = some (.root 0, p) → p = .raised f
  ended : s.focus = none → s.roots = [some (.error f)]

theorem Solo.left {updateId : Json} {f : Fault} (h : Solo m (log (.unhandled updateId) (.raised f)))
    (hcalm : Calm w m.world) (k : Nat) : Left w m (run (k + 1) m) updateId f := by
  rw [run_write .hole h.focus]
  cases k with
  | zero =>
    refine ⟨hcalm, h.focus, rfl, ?_, nofun⟩
    rintro _ ⟨⟩
    rfl
  | succ k =>
    have hend := run_of_ended (m := { m with
      world := m.world.log (.unhandled updateId), focus := some (.root 0, .raised f) })
      rfl h.ready (.raised f) k
    rw [hend]
    refine ⟨hcalm, h.focus, rfl, nofun, fun _ => ?_⟩
    change m.roots.set 0 (some (.error f)) = _
    rw [h.roots]
    rfl

/-- The run of a batch, compared with itself, goes on until it is over or left with a fault that
came from outside of the chain. -/
theorem parallel_or_left (w : World) (id : Nat) (us : List Json) {s : Machine}
    (hs : s = batchStart w id us) (n : Nat) :
    Parallel ⟨s, s⟩ (Over ⟨s, s⟩ id []) (run n s) (run n s) ∨
      ∃ i < n, Parallel ⟨s, s⟩ (Over ⟨s, s⟩ id []) (run i s) (run i s) ∧
        ∃ updateId f, Left w (run i s) (run n s) updateId f := by
  subst hs
  have hstart : Parallel ⟨batchStart w id us, batchStart w id us⟩ (Over _ id [])
      (batchStart w id us) (batchStart w id us) :=
    parallel_origin (O := ⟨batchStart w id us, batchStart w id us⟩) ⟨rfl, rfl, rfl, rfl⟩ .none
      (.cons (.resume (.root 0) (towards_self us)) .nil) (.cons .none .nil)
  rcases hstart.run n with hrun | ⟨i, hi, hrun, j, p, p', hp, hp', hover⟩
  · exact .inl hrun
  -- nobody else is left when the only root comes to its end, so the run ends with it
  obtain ⟨k, rfl⟩ := Nat.exists_eq_add_of_lt hi
  obtain rfl := (oneRoot_batch w id us i).root_eq hp
  have hready := (oneRoot_batch w id us i).ready_eq_nil (reachable_batch w id us i) hp
  rw [Nat.add_assoc, run_add]
  cases hover with
  | returned =>
    rw [run_of_ended hp hready (.value _)]
    exact .inl (hrun.finish (.root 0) (.ok _))
  | raised hf =>
    rw [run_of_ended hp hready (.raised _)]
    exact .inl (hrun.finish (.root 0) (.error (.refl _)))
  | unhandled updateId f =>
    exact .inr ⟨i, hi, hrun, updateId, f, (solo_batch hp nofun).left hrun.calm k⟩

/-- Nothing critical is logged while a batch is handled, unless it is left with a fault that came
from outside of the chain. That fault is logged once, and this is the last thing that happens. -/
theorem calm_or_left (w : World) (id : Nat) (us : List Json) (n : Nat) :
    Calm w (run n (batchStart w id us)).world ∨ ∃ i < n, ∃ updateId f,
      Left w (run i (batchStart w id us)) (run n (batchStart w id us)) updateId f := by
  rcases parallel_or_left w id us rfl n with hrun | ⟨i, hi, -, hleft⟩
  · exact .inl hrun.calm
  · exact .inr ⟨i, hi, hleft⟩

/-- A batch leaves the bots as they are if nothing registers anything. -/
theorem sameBots_of_steady (h : w.Steady) (id : Nat) (us : List Json) (n : Nat) :
    SameBots w (run n (batchStart w id us)).world := by
  have hbots : SameBots w w := ⟨rfl, rfl, rfl, rfl⟩
  rcases parallel_or_left w id us rfl n with hrun | ⟨i, -, hrun, updateId, f, hleft⟩
  · exact hrun.sameBots h hbots
  · obtain ⟨hcomposers, hregisters, hclient, hme⟩ := hrun.sameBots h hbots
    rw [hleft.world]
    exact ⟨hcomposers, hregisters, hclient, hme⟩

/-- While an update is attempted, nothing critical has been logged. -/
theorem calm_of_focus {n : Nat} (hfocus : (run n (batchStart w id us)).focus = some (.root 0, p))
    (hp : ∀ o, ¬ Ended p o) : Calm w (run n (batchStart w id us)).world := by
  rcases calm_or_left w id us n with hcalm | ⟨i, -, updateId, f, hleft⟩
  · exact hcalm
  · rw [hleft.stopped hfocus] at hp
    exact absurd (.raised f) (hp _)

theorem Calm.trans {w₁ w₂ w₃ : World} (h : Calm w₁ w₂) (h' : Calm w₂ w₃) : Calm w₁ w₃ := by
  obtain ⟨ns, hns, hcalm⟩ := h.notices
  obtain ⟨ns', hns', hcalm'⟩ := h'.notices
  refine ⟨h'.client.trans h.client, h'.me.trans h.me, ns ++ ns', ?_, fun n hn => ?_⟩
  · rw [hns', hns, List.append_assoc]
  · exact (List.mem_append.mp hn).elim (hcalm n) (hcalm' n)

/-- The ends of an attempt with nothing critical: the batch goes on with the rest, or the fault of
the handler leaves it. -/
inductive Passed (O : Origin) (id : Nat) (rest : List Json) : Process → Process → Prop
  | returned : Passed O id rest (handleUpdates id rest) (handleUpdates id rest)
  | raised {f f' : Fault} (h : f.Same O.Contexts f') : Passed O id rest (.raised f) (.raised f')

/-- The first step of an attempt finds out whether the bot takes on the update. If it does, or has a
failure to report, the update ends as it may with nothing critical. -/
theorem Solo.exists_taking (h : Solo m (handleUpdates id (u :: rest)))
    (hadmits : ∀ f, admits m.world id = .error f → isFailure f) :
    ∃ s, Goes m s ∧ s.world = m.world ∧ Parallel ⟨s, s⟩ (Passed ⟨s, s⟩ id rest) s s := by
  obtain ⟨k, hk⟩ : ∃ k, handleUpdates id (u :: rest) = .read k := ⟨_, rfl⟩
  let s := m.focusOn (.root 0) (k m.world)
  have hsolo : Solo s (k m.world) := ⟨rfl, h.ready, h.roots⟩
  refine ⟨s, step_of_focus (hk ▸ h.focus), rfl, ?_⟩
  obtain ⟨k', k'', hk', hk'', htowards⟩ := towards_update (O := ⟨s, s⟩)
    (T := Passed ⟨s, s⟩ id rest) (.last .returned) (fun _ _ hf => .raised hf) u
    (worlds_origin ⟨rfl, rfl, rfl, rfl⟩) fun f hf hfailure => absurd (hadmits f hf) hfailure
  cases hk.symm.trans hk'
  cases hk.symm.trans hk''
  exact Solo.parallel (O := ⟨s, s⟩) hsolo hsolo ⟨rfl, rfl, rfl, rfl⟩ htowards

/-- From an update that a bot takes on, or for which it has a failure to report, nothing critical is
logged until the batch goes on with the rest. If the handler fails that never happens. -/
theorem attempt_calm {n : Nat}
    (hfocus : (run n (batchStart w id us)).focus = some (.root 0, handleUpdates id (u :: rest)))
    (hadmits : ∀ f, admits (run n (batchStart w id us)).world id = .error f → isFailure f)
    (k : Nat) : Calm w (run (n + k) (batchStart w id us)).world ∨
      ∃ i < k, Calm w (run (n + i) (batchStart w id us)).world ∧
        (run (n + i) (batchStart w id us)).focus = some (.root 0, handleUpdates id rest) := by
  have hcalm := calm_of_focus hfocus nofun
  cases k with
  | zero => exact .inl hcalm
  | succ k =>
  obtain ⟨s, hgoes, hworld, hstart⟩ := (solo_batch hfocus nofun).exists_taking hadmits
  have hrun : ∀ i, run (n + (i + 1)) (batchStart w id us) = run i s := fun i => by
    rw [run_add, run_of_goes hgoes]
  have hlater : ∀ {i}, Parallel ⟨s, s⟩ (Passed ⟨s, s⟩ id rest) (run i s) (run i s) →
      Calm w (run i s).world := fun h => hcalm.trans (hworld ▸ h.calm)
  rw [hrun]
  rcases hstart.run k with hk | ⟨i, hi, hk, j, p, p', hp, hp', hpassed⟩
  · exact .inl (hlater hk)
  have hroot := oneRoot_batch w id us (n + (i + 1))
  have hreach := reachable_batch w id us (n + (i + 1))
  rw [hrun] at hroot hreach
  obtain rfl := hroot.root_eq hp
  cases hpassed with
  | returned =>
    refine .inr ⟨i + 1, Nat.succ_lt_succ hi, ?_⟩
    rw [hrun]
    exact ⟨hlater hk, hp⟩
  | raised hf =>
    obtain ⟨d, rfl⟩ := Nat.exists_eq_add_of_lt hi
    rw [Nat.add_assoc, run_add, run_of_ended hp (hroot.ready_eq_nil hreach hp) (.raised _)]
    exact .inl (hlater hk)

/-! ## Updates that are handled as if alone -/

/-- The state in which a batch of one update, which runs alone, has taken its turn. -/
def aloneStart (w : World) (id : Nat) (u : Json) : Machine := run 1 (batchStart w id [u])

/-- An update that is attempted in a batch is handled as it would be by itself, in any state with
the same bots: step by step the same happens, until both are over in the same way. -/
theorem attempt_as_alone {n : Nat}
    (hfocus : (run n (batchStart w id us)).focus = some (.root 0, handleUpdates id (u :: rest)))
    (hbots : SameBots (run n (batchStart w id us)).world w') {O : Origin}
    (hO : O = ⟨run n (batchStart w id us), aloneStart w' id u⟩) (k : Nat) :
    Parallel O (Over O id rest) (run k O.left) (run k O.right) ∨
      ∃ i < k, Parallel O (Over O id rest) (run i O.left) (run i O.right) ∧
        Meets (Over O id rest) (run i O.left) (run i O.right) := by
  subst hO
  exact (Solo.parallel (solo_batch hfocus nofun) ⟨rfl, rfl, rfl⟩ hbots
    (towards_handleUpdates (.last .returned) u)).run k

/-- What becomes of a batch of objects. Its process is always at one of the points of its course. If
nothing else runs, then nothing critical is logged except for a fault from outside of the chain, and
that is the last thing that happens. A handler that fails has nothing critical logged. And an update
that is attempted while the bots are what they were is handled as it is by itself; they stay what
they are if nothing registers anything. -/
theorem batch_policy :
    (∀ e, Reachable e → ∀ a K id us, Surrounds K → (∀ u ∈ us, ∃ fields, u = .obj fields) →
      e.focus = some (a, K (handleUpdates id us)) →
      ∀ m' q, ReflTransGen Next e m' → m'.focus = some (a, q) → Batch a K id m' q us e) ∧
    (∀ w id us n, (Calm w (run n (batchStart w id us)).world ∨ ∃ i < n, ∃ updateId f,
        Left w (run i (batchStart w id us)) (run n (batchStart w id us)) updateId f) ∧
      (w.Steady → SameBots w (run n (batchStart w id us)).world)) ∧
    ∀ w id us n u rest e, e = run n (batchStart w id us) →
      e.focus = some (.root 0, handleUpdates id (u :: rest)) →
      ((∀ f, admits e.world id = .error f → isFailure f) →
        ∀ k, Calm w (run k e).world ∨ ∃ i < k, Calm w (run i e).world ∧
          (run i e).focus = some (.root 0, handleUpdates id rest)) ∧
      (SameBots w e.world → ∀ w', SameBots w w' → ∀ O : Origin, O = ⟨e, aloneStart w' id u⟩ →
        ∀ k, Parallel O (Over O id rest) (run k O.left) (run k O.right) ∨
          ∃ i < k, Parallel O (Over O id rest) (run i O.left) (run i O.right) ∧
            Meets (Over O id rest) (run i O.left) (run i O.right)) := by
  refine ⟨fun e he a K id us hK hus hfocus m' q hrun hq => ?_, fun w id us n => ?_, ?_⟩
  · refine batch_course he hK (fun u hu => ?_) hfocus hrun hq
    obtain ⟨fields, rfl⟩ := hus u hu
    exact ⟨_, rfl⟩
  · exact ⟨calm_or_left w id us n, fun hsteady => sameBots_of_steady hsteady id us n⟩
  · rintro w id us n u rest _ rfl hfocus
    refine ⟨fun hadmits k => ?_, fun hbots w' hbots' O hO k => ?_⟩
    · simpa only [run_add] using attempt_calm hfocus hadmits k
    · exact attempt_as_alone hfocus (hbots.symm.trans hbots') hO k

/-- Another update. -/
def eighth : Json := .obj [("update_id", .int 8)]

/-- A bot whose chain fails and whose handler notes the failure. -/
def reportingWorld : World :=
  (Build.outcome
    (do
      let bot ← Build.newComposer
        { bot := some
            { identity := some default
              handler := some { actions := [.noteFailure], plain := false } } }
      Build.use bot [.link (failing 1 "boom")])
    { client := none, me := default }).2

theorem steady_reportingWorld : reportingWorld.Steady where
  chains c hc := by
    rcases List.mem_pair.mp hc with rfl | rfl
    · exact .concat .pass (.composer 1)
    · refine .script fun a ha => ?_
      simp only [List.mem_cons, List.not_mem_nil, or_false] at ha
      rcases ha with rfl | rfl | rfl <;> nofun
  handlers c hc b hb s hs := by
    rcases List.mem_pair.mp hc with rfl | rfl
    · cases hb
      cases hs
      intro a ha
      obtain rfl := List.mem_singleton.mp ha
      nofun
    · cases hb
  registers := nofun

/-- The second update is attempted after the handler has returned, and goes as it goes alone. -/
theorem batch_policy_reporting :
    Batch (.root 0) (fun p => p) 0 (run 35 (batchStart reportingWorld 0 [seventh, eighth]))
      (.value .null) [seventh, eighth] (run 1 (batchStart reportingWorld 0 [seventh, eighth])) ∧
    (run 35 (batchStart reportingWorld 0 [seventh, eighth])).world.events = [
      .note (.str "boom"), .failed (.failure (.raised .value (.str "boom")) (some 0)) (.int 7),
      .note (.str "boom"), .failed (.failure (.raised .value (.str "boom")) (some 1)) (.int 8)] ∧
    ∀ e, e = run 18 (batchStart reportingWorld 0 [seventh, eighth]) →
      (∀ k, Calm reportingWorld (run k e).world ∨ ∃ i < k, Calm reportingWorld (run i e).world ∧
        (run i e).focus = some (.root 0, handleUpdates 0 [])) ∧
      ∀ O : Origin, O = ⟨e, aloneStart reportingWorld 0 eighth⟩ →
        ∀ k, Parallel O (Over O 0 []) (run k O.left) (run k O.right) ∨
          ∃ i < k, Parallel O (Over O 0 []) (run i O.left) (run i O.right) ∧
            Meets (Over O 0 []) (run i O.left) (run i O.right) := by
  obtain ⟨hcourse, hruns, hattempt⟩ := batch_policy
  refine ⟨?_, rfl, ?_⟩
  · refine hcourse _ (reachable_batch reportingWorld 0 [seventh, eighth] 1) (.root 0) (fun p => p) 0
      _ .hole ?_ rfl _ _ (reaches_run 34 _) rfl
    simp [seventh, eighth]
  · rintro _ rfl
    have hbots := (hruns reportingWorld 0 [seventh, eighth] 18).2 steady_reportingWorld
    obtain ⟨hcalm, halone⟩ := hattempt reportingWorld 0 [seventh, eighth] 18 eighth [] _ rfl rfl
    refine ⟨hcalm fun f hf => ?_, fun O hO k => ?_⟩
    · cases hf
    · exact halone hbots reportingWorld ⟨rfl, rfl, rfl, rfl⟩ O hO k

/-- A bot whose chain fails after its continuation, and whose handler registers more. -/
def registeringWorld : World where
  client := none
  me := default
  composers :=
    [{ chain := .script
        { actions := [.next, .throw { kind := .plain .value, value := .str "boom" }]
          plain := false }
       bot := some
        { identity := some default
          handler := some
            { actions := [.step (.register "bot" none (.use [.script [.note (.str "late")] false]))]
              plain := false } } }]
  registers := [("bot", .composer 0)]

/-- A bot without an identity. -/
def anonymousWorld : World where
  client := none
  me := default
  composers := [{ bot := some {} }]

/-- An update may go another way in a batch than by itself. What a handler registers on account of
one update is run for the next one, although the handler returns. And after a fault from outside of
the chain the next update is not attempted. -/
theorem updates_are_not_always_isolated :
    ((run 26 (batchStart registeringWorld 0 [seventh, eighth])).roots = [some (.ok .null)] ∧
      (run 26 (batchStart registeringWorld 0 [seventh, eighth])).world.events =
        [.note (.str "late")] ∧
      ∀ u ∈ [seventh, eighth],
        (run 11 (batchStart registeringWorld 0 [u])).roots = [some (.ok .null)] ∧
        (run 11 (batchStart registeringWorld 0 [u])).world.events = []) ∧
    (run 4 (batchStart anonymousWorld 0 [seventh, eighth])).world.notices =
      [.unhandled (.int 7)] ∧
    (run 4 (batchStart anonymousWorld 0 [eighth])).world.notices = [.unhandled (.int 8)] := by
  refine ⟨⟨by cbv, by cbv, fun u hu => ?_⟩, rfl, rfl⟩
  rcases List.mem_pair.mp hu with rfl | rfl <;> exact ⟨by cbv, by cbv⟩

end Machine

end UpdateDispatch
