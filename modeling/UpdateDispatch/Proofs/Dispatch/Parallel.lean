import UpdateDispatch.Proofs.Dispatch.Lockstep
import UpdateDispatch.Proofs.Dispatch.Twins

/-!
# Two runs that do the same

Two machines go on from the states of an origin. They are `Parallel` while their processes, turns
and joins are twins, one by one, so that they differ in nothing but the numbers of what is new. Each
step of one of them is a step of the other one (`Parallel.step`), until the roots come to processes
that were agreed on as the end of the comparison (`Parallel.run`).
-/

namespace UpdateDispatch

namespace Machine

open Process

variable {O : Origin} {T : Process → Process → Prop} {m m' : Machine} {a a' : Owner}
  {p p' q q' : Process} {o o' : Outcome} {j j' : Nat}

/-! ## Machines that correspond -/

/-- Owners that correspond: the same root, or the same side of joins that correspond. -/
inductive Peers (O : Origin) : Owner → Owner → Prop
  | root (i : Nat) : Peers O (.root i) (.root i)
  | side {j j' : Nat} (hj : O.Joins j j') (left : Bool) : Peers O (.side j left) (.side j' left)

/-- What the process of an owner may come to in the end: only that of a root may come to processes
of which `T` holds. -/
def ends (T : Process → Process → Prop) : Owner → Process → Process → Prop
  | .root _ => T
  | _ => Never

/-- Turns of owners that correspond. -/
inductive TurnTwin (O : Origin) (T : Process → Process → Prop) : Turn → Turn → Prop
  | resume {a a' : Owner} {p p' : Process} (ha : Peers O a a') (h : Towards O (ends T a) p p') :
      TurnTwin O T (.resume a p) (.resume a' p')
  | settled {j j' : Nat} {o o' : Outcome} (hj : O.Joins j j') (left : Bool)
      (ho : Outcome.Same O.Contexts o o') :
      TurnTwin O T (.settled j left o) (.settled j' left o')

/-- Joins of owners that correspond. -/
structure JoinTwin (O : Origin) (T : Process → Process → Prop) (J J' : Join) : Prop where
  owner : Peers O J.owner J'.owner
  next : ∀ s s', Settled.Same O.Contexts s s' → Towards O (ends T J.owner) (J.next s) (J'.next s')
  first : Option.Rel (fun e e' => e'.1 = e.1 ∧ Outcome.Same O.Contexts e.2 e'.2) J.first J'.first

/-- Machines that have done the same since they went on from the states of the origin. -/
structure Parallel (O : Origin) (T : Process → Process → Prop) (m m' : Machine) : Prop where
  world : O.Worlds m.world m'.world
  guards : ∃ gs, m.guards = O.left.guards ++ gs ∧ m'.guards = O.right.guards ++ gs
  focus : Option.Rel (fun e e' => Peers O e.1 e'.1 ∧ Towards O (ends T e.1) e.2 e'.2) m.focus
    m'.focus
  ready : List.Forall₂ (TurnTwin O T) m.ready m'.ready
  joins : ∃ Js Js', m.joins = O.left.joins ++ Js ∧ m'.joins = O.right.joins ++ Js' ∧
    List.Forall₂ (JoinTwin O T) Js Js'
  roots : List.Forall₂ (Option.Rel (Outcome.Same O.Contexts)) m.roots m'.roots

/-- A root of both machines has come to processes of which `T` holds. -/
def Meets (T : Process → Process → Prop) (m m' : Machine) : Prop :=
  ∃ i p p', m.focus = some (.root i, p) ∧ m'.focus = some (.root i, p') ∧ T p p'

/-! ## Steps -/

theorem Parallel.idle (h : Parallel O T m m') : Parallel O T m.idle m'.idle :=
  { h with focus := .none }

theorem Parallel.focusOn (h : Parallel O T m m') (ha : Peers O a a')
    (hp : Towards O (ends T a) p p') : Parallel O T (m.focusOn a p) (m'.focusOn a' p') :=
  { h with focus := .some ⟨ha, hp⟩ }

theorem Parallel.queue (h : Parallel O T m m') {t t' : Turn} (ht : TurnTwin O T t t') :
    Parallel O T (m.queue t) (m'.queue t') :=
  { h with ready := List.rel_append h.ready (.cons ht .nil) }

theorem Parallel.write (h : Parallel O T m m') {f f' : World → World}
    (hf : ∀ w w', O.Worlds w w' → O.Worlds (f w) (f' w')) :
    Parallel O T { m with world := f m.world } { m' with world := f' m'.world } :=
  { h with world := hf _ _ h.world }

theorem Parallel.used (h : Parallel O T m m') {i i' : Nat} (hi : O.Guards i i') :
    m'.used i' = m.used i := by
  obtain ⟨gs, hleft, hright⟩ := h.guards
  rw [Machine.used, Machine.used, hleft, hright, getElem?_paired hi]

theorem Parallel.newGuard (h : Parallel O T m m') :
    O.Guards m.guards.length m'.guards.length ∧
      Parallel O T { m with guards := m.guards ++ [false] }
        { m' with guards := m'.guards ++ [false] } := by
  obtain ⟨gs, hleft, hright⟩ := h.guards
  refine ⟨?_, { h with guards := ⟨gs ++ [false], ?_, ?_⟩ }⟩
  · rw [hleft, hright]
    exact paired_append _ _ gs
  · rw [hleft, List.append_assoc]
  · rw [hright, List.append_assoc]

theorem Parallel.useGuard (h : Parallel O T m m') {i i' : Nat} (hi : O.Guards i i') :
    Parallel O T { m with guards := m.guards.set i true }
      { m' with guards := m'.guards.set i' true } := by
  obtain ⟨gs, hleft, hright⟩ := h.guards
  obtain ⟨gs', hleft', hright'⟩ := set_paired gs hi true
  exact { h with guards := ⟨gs', (congrArg (·.set i true) hleft).trans hleft',
    (congrArg (·.set i' true) hright).trans hright'⟩ }

theorem Parallel.finish (h : Parallel O T m m') (ha : Peers O a a')
    (ho : Outcome.Same O.Contexts o o') : Parallel O T (m.finish a o) (m'.finish a' o') := by
  cases ha with
  | root i => exact { h.idle with roots := forall₂_set h.roots (.some ho) i }
  | side hj left => exact h.idle.queue (.settled hj left ho)

/-- Two processes that start two sides each. -/
theorem Parallel.split (h : Parallel O T m m') (ha : Peers O a a') {l l' r r' : Process}
    {k k' : Settled → Process} (hl : Twin O l l') (hr : Twin O r r')
    (hk : ∀ s s', Settled.Same O.Contexts s s' → Towards O (ends T a) (k s) (k' s')) :
    Parallel O T (m.split a l r k) (m'.split a' l' r' k') := by
  obtain ⟨Js, Js', hleft, hright, hJs⟩ := h.joins
  have hj : O.Joins m.joins.length m'.joins.length := by
    refine ⟨Js.length, ?_, ?_⟩
    · rw [hleft, List.length_append]
    · rw [hright, List.length_append, hJs.length_eq]
  have hsides := List.rel_append h.ready
    (.cons (TurnTwin.resume (T := T) (.side hj true) hl) (.cons (.resume (.side hj false) hr) .nil))
  refine { h.idle with ready := hsides, joins := ⟨Js ++ [⟨a, k, none⟩], Js' ++ [⟨a', k', none⟩],
    ?_, ?_, List.rel_append hJs (.cons ⟨ha, hk, .none⟩ .nil)⟩ }
  · rw [← List.append_assoc, ← hleft]
    rfl
  · rw [← List.append_assoc, ← hright]
    rfl

theorem settled_same_pair {C : Nat → Nat → Prop} {first other first' other' : Outcome}
    (left : Bool) (h : Outcome.Same C first first') (h' : Outcome.Same C other other') :
    Settled.Same C (pair left first other) (pair left first' other') := by
  cases left
  · exact ⟨h', h, rfl⟩
  · exact ⟨h, h', rfl⟩

/-- Two joins that are told that a side has ended. -/
theorem Parallel.settle (h : Parallel O T m m') (hj : O.Joins j j') (left : Bool)
    (ho : Outcome.Same O.Contexts o o') :
    Parallel O T (m.settle j left o) (m'.settle j' left o') := by
  obtain ⟨i, rfl, rfl⟩ := hj
  obtain ⟨Js, Js', hleft, hright, hJs⟩ := h.joins
  have hjoin := forall₂_getElem? hJs i
  unfold Machine.settle
  rw [hleft, hright, List.getElem?_append_right (Nat.le_add_right _ _),
    List.getElem?_append_right (Nat.le_add_right _ _), Nat.add_sub_cancel_left,
    Nat.add_sub_cancel_left]
  generalize Js[i]? = J? at hjoin
  generalize Js'[i]? = J'? at hjoin
  cases hjoin with
  | none => exact h
  | @some J J' hJ =>
    have hfirst := hJ.first
    dsimp only
    generalize J.first = F at hfirst
    generalize J'.first = F' at hfirst
    cases hfirst with
    | none =>
      have htold : JoinTwin O T { J with first := some (left, o) }
          { J' with first := some (left, o') } := ⟨hJ.owner, hJ.next, .some ⟨rfl, ho⟩⟩
      refine { h with joins := ⟨_, _, ?_, ?_, forall₂_set hJs htold i⟩ } <;>
        rw [List.set_append_right _ _ (Nat.le_add_right _ _), Nat.add_sub_cancel_left]
    | @some e e' he =>
      obtain ⟨first, o₁⟩ := e
      obtain ⟨first', o₁'⟩ := e'
      obtain ⟨heq, ho₁⟩ := he
      obtain rfl : first' = first := heq
      exact h.queue (.resume hJ.owner (hJ.next _ _ (settled_same_pair first' ho₁ ho)))

/-- The running processes go on, unless they are the roots and have come to `T`. -/
theorem Parallel.advance (h : Parallel O T m m') (ha : Peers O a a')
    (hp : Towards O (ends T a) p p') :
    ends T a p p' ∨ Parallel O T (m.advance a p) (m'.advance a' p') := by
  generalize hE : ends T a = E at hp
  cases hp with
  | last hlast => exact .inl hlast
  | value v => exact .inr (h.finish ha (.ok v))
  | raised hf => exact .inr (h.finish ha (.error hf))
  | deferred hp => exact .inr (h.focusOn ha (hE ▸ hp))
  | read hk => exact .inr (h.focusOn ha (hE ▸ hk _ _ h.world))
  | write hf hp => exact .inr ((h.write hf).focusOn ha (hE ▸ hp))
  | newGuard hk =>
    obtain ⟨hi, hnew⟩ := h.newGuard
    exact .inr (hnew.focusOn ha (hE ▸ hk _ _ hi))
  | checkGuard hi hk =>
    refine .inr (h.focusOn ha ?_)
    rw [h.used hi]
    exact hE ▸ hk _
  | useGuard hi hp => exact .inr ((h.useGuard hi).focusOn ha (hE ▸ hp))
  | pause hp => exact .inr (h.idle.queue (.resume ha (hE ▸ hp)))
  | both hl hr hk => exact .inr (h.split ha hl hr (hE ▸ hk))
  | enter hl hx hnext hk =>
    refine .inr (h.focusOn ha ?_)
    exact hE ▸ (twin_call hx _ hl hnext).andThen hk

/-- Machines that do the same have both stopped, or both take a step. -/
theorem Parallel.step (h : Parallel O T m m') : Meets T m m' ∨
    (m.step = none ∧ m'.step = none) ∨ ∃ s s', Goes m s ∧ Goes m' s' ∧ Parallel O T s s' := by
  have hfocus := h.focus
  generalize hF : m.focus = F at hfocus
  generalize hF' : m'.focus = F' at hfocus
  cases hfocus with
  | @some e e' he =>
    obtain ⟨a, p⟩ := e
    obtain ⟨a', p'⟩ := e'
    obtain ⟨ha, hp⟩ := he
    rcases h.advance ha hp with hlast | hgo
    · cases ha with
      | root i => exact .inl ⟨i, p, p', hF, hF', hlast⟩
      | side hj left => cases hlast
    · exact .inr (.inr ⟨_, _, step_of_focus hF, step_of_focus hF', hgo⟩)
  | none =>
    have hready := h.ready
    generalize hR : m.ready = R at hready
    generalize hR' : m'.ready = R' at hready
    simp only [Goes, Machine.step, hF, hF', hR, hR']
    cases hready with
    | nil => exact .inr (.inl ⟨rfl, rfl⟩)
    | @cons t t' rest rest' ht hrest =>
      have hturns : Parallel O T { m with focus := none, ready := rest }
          { m' with focus := none, ready := rest' } := { h with focus := .none, ready := hrest }
      cases ht with
      | resume ha hp => exact .inr (.inr ⟨_, _, rfl, rfl, hturns.focusOn ha hp⟩)
      | settled hj left ho => exact .inr (.inr ⟨_, _, rfl, rfl, hturns.settle hj left ho⟩)

/-- Machines that do the same go on to do so until their roots meet. -/
theorem Parallel.run (h : Parallel O T m m') (n : Nat) : Parallel O T (run n m) (run n m') ∨
    ∃ i < n, Parallel O T (Machine.run i m) (Machine.run i m') ∧
      Meets T (Machine.run i m) (Machine.run i m') := by
  induction n generalizing m m' with
  | zero => exact .inl h
  | succ n ih =>
    rcases h.step with hmeets | ⟨hstep, hstep'⟩ | ⟨s, s', hgo, hgo', hparallel⟩
    · exact .inr ⟨0, Nat.succ_pos n, h, hmeets⟩
    · rw [run_of_stopped hstep, run_of_stopped hstep']
      exact .inl h
    · rw [run_of_goes hgo, run_of_goes hgo']
      refine (ih hparallel).imp_right ?_
      rintro ⟨i, hi, hparallel, hmeets⟩
      refine ⟨i + 1, Nat.succ_lt_succ hi, ?_⟩
      rw [run_of_goes hgo, run_of_goes hgo']
      exact ⟨hparallel, hmeets⟩

end Machine

end UpdateDispatch
