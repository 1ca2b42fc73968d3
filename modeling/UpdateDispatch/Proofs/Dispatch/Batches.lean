import UpdateDispatch.Proofs.Dispatch.Quiescence
import UpdateDispatch.Proofs.Dispatch.Turns

/-!
# The course of a batch

A bot takes on the updates of a batch one after the other. For each of them it runs its chain, and
if that fails it hands the failure to its handler; it goes on with the next update when the chain or
the handler has returned. A handler that fails ends the batch with its own fault, and so does a
fault from outside of the chain, after a critical line in the log.

`Machine.Attempt` lists what the process of a batch can be at on account of one update, and
`Machine.Batch` puts these together for all of them. `Machine.batch_course` says that the process is
always at one of these points, wherever the batch is handled and however the run goes on.
-/

namespace UpdateDispatch

open Relation

namespace Bot

open Process

/-! ## The parts of a batch -/

/-- The identity with which a bot takes on an update, or why it does not run its chain. -/
def admits (w : World) (id : Nat) : Except Fault Identity :=
  match w.bot? id with
  | none => .error (.noAttribute "Composer" "handle_update")
  | some b =>
    match b.identity with
    | none => .error (.noIdentity .dispatching)
    | some me =>
      match b.contextThrows with
      | none => .ok me
      | some t => .error (t.fault none)

/-- What is called with a failure: the handler that the bot has by then, if there is one. -/
def handling (w : World) (id : Nat) (failure : Fault) : Process :=
  match w.bot? id with
  | none => raised (.noAttribute "Composer" "error_handler")
  | some b =>
    match b.handler with
    | some handler => handler.call { context := failureContext failure, failure := some failure }
    | none => deferred (defaultHandler failure)

/-- How a batch goes on when an update has been handled. -/
def afterUpdate (id : Nat) (u : Json) (rest : List Json) : Outcome → Process
  | .ok _ => handleUpdates id rest
  | .error f =>
    if isFailure f then (report id f).followedBy (handleUpdates id rest)
    else
      match u.get "update_id" with
      | .ok updateId => log (.unhandled updateId) (raised f)
      | .error g => raised g

/-- How a batch goes on when the chain of the bot has ended for the context `x`. -/
def afterRun (id : Nat) (updateId : Json) (rest : List Json) (x : Nat) : Outcome → Process
  | .ok _ => handleUpdates id rest
  | .error f =>
    log (.chainFailed updateId)
      ((report id (.failure f (some x))).followedBy (handleUpdates id rest))

/-- What follows the chain of a bot for the context `x`, before what follows the update. -/
def wrapping (updateId : Json) (x : Nat) (k : Outcome → Process) : Outcome → Process
  | .ok _ => k (.ok (.int x))
  | .error f => log (.chainFailed updateId) (k (.error (.failure f (some x))))

theorem wrapping_afterUpdate (id : Nat) (u updateId : Json) (rest : List Json) (x : Nat) :
    wrapping updateId x (afterUpdate id u rest) = afterRun id updateId rest x := by
  funext o
  cases o <;> rfl

theorem handleUpdates_cons (id : Nat) (u : Json) (rest : List Json) :
    handleUpdates id (u :: rest) = (handleUpdate id u).andThen (afterUpdate id u rest) := rfl

end Bot

namespace Machine

open Process UpdateDispatch.Bot

variable {m m' e e' s : Machine} {a : Owner} {q : Process} {K : Process → Process} {id : Nat}
  {u updateId : Json} {us rest : List Json} {me : Identity} {f failure : Fault}
  {k : Outcome → Process}

/-! ## The states that are passed -/

/-- The state in which a bot runs its chain for an update that it took on in `e`. -/
def attempting (a : Owner) (K : Process → Process) (id : Nat) (u updateId : Json) (me : Identity)
    (rest : List Json) (e : Machine) : Machine :=
  { e with
    world := (e.world.log (.processing updateId)).addContext { update := u, me }
    focus := some (a, K (((Link.composer id).run e.world.contexts.length).andThen
      (afterRun id updateId rest e.world.contexts.length))) }

/-- The state in which a handler is called with a failure that came up in `e` and was noticed. -/
def handing (a : Owner) (K : Process → Process) (id : Nat) (failure : Fault) (rest : List Json)
    (n : Notice) (e : Machine) : Machine :=
  { e with
    world := e.world.log n
    focus := some (a, K ((handling (e.world.log n) id failure).andThen
      (unlessFailed (handleUpdates id rest)))) }

/-- The state in which a batch is left with a fault that did not come from the chain, and that has
been logged after `w`. -/
def leaving (a : Owner) (K : Process → Process) (updateId : Json) (f : Fault) (w : World)
    (e : Machine) : Machine :=
  { e with world := w.log (.unhandled updateId), focus := some (a, K (raised f)) }

/-! ## The points of the course -/

/-- A handler is called with a failure in `s`, and the batch goes on as `Rest` says when it has
returned. What the process of `a` is at in a later state `m'`, as `q`. -/
inductive Handed (a : Owner) (K : Process → Process) (id : Nat) (failure : Fault)
    (rest : List Json) (Rest : Machine → Prop) (s m' : Machine) (q : Process) : Prop
  /-- The handler is about to be called. -/
  | called (h : InTurn a m' s)
  /-- The handler runs. -/
  | handling {p : Process} (h : Leads (handling s.world id failure) p)
      (hq : q = K (p.andThen (unlessFailed (handleUpdates id rest))))
  /-- The handler has returned. -/
  | handled {e : Machine} {v : Json}
      (h : EndsAlone s a K (unlessFailed (handleUpdates id rest)) (handling s.world id failure) e
        (.ok v))
      (hrest : Rest e)
  /-- The handler has failed, and its fault leaves the batch. -/
  | escaped {e : Machine} {g : Fault}
      (h : EndsAlone s a K (unlessFailed (handleUpdates id rest)) (handling s.world id failure) e
        (.error g))
      (hq : Leads (K (raised g)) q)

/-- An update is the next one of a batch in `e`, and after it the batch goes on as `Rest` says. What
the process of `a` is at in a later state `m'`, as `q`. -/
inductive Attempt (a : Owner) (K : Process → Process) (id : Nat) (u updateId : Json)
    (rest : List Json) (Rest : Machine → Prop) (e m' : Machine) (q : Process) : Prop
  /-- The chain is about to be run. -/
  | starting {me : Identity} (h : admits e.world id = .ok me)
      (hm' : InTurn a m' (attempting a K id u updateId me rest e))
  /-- The chain runs. -/
  | running {me : Identity} {p : Process} (h : admits e.world id = .ok me)
      (hstart : InTurn a e (attempting a K id u updateId me rest e))
      (hchain : Leads ((Link.composer id).run e.world.contexts.length) p)
      (hq : q = K (p.andThen (afterRun id updateId rest e.world.contexts.length)))
  /-- The chain has returned. -/
  | returned {me : Identity} {e' : Machine} {v : Json} (h : admits e.world id = .ok me)
      (hstart : InTurn a e (attempting a K id u updateId me rest e))
      (hchain : EndsAlone (attempting a K id u updateId me rest e) a K
        (afterRun id updateId rest e.world.contexts.length)
        ((Link.composer id).run e.world.contexts.length) e' (.ok v))
      (hrest : Rest e')
  /-- The chain has failed, and the handler gets the failure with the context. -/
  | failed {me : Identity} {e' : Machine} {f : Fault} (h : admits e.world id = .ok me)
      (hstart : InTurn a e (attempting a K id u updateId me rest e))
      (hchain : EndsAlone (attempting a K id u updateId me rest e) a K
        (afterRun id updateId rest e.world.contexts.length)
        ((Link.composer id).run e.world.contexts.length) e' (.error f))
      (hcall : InTurn a e' (handing a K id (.failure f (some e.world.contexts.length)) rest
        (.chainFailed updateId) e'))
      (hhanded : Handed a K id (.failure f (some e.world.contexts.length)) rest Rest
        (handing a K id (.failure f (some e.world.contexts.length)) rest (.chainFailed updateId) e')
        m' q)
  /-- There is no context, but a failure that the handler gets. -/
  | refused {failure : Fault} (h : admits e.world id = .error failure)
      (hfailure : isFailure failure)
      (hcall : InTurn a e (handing a K id failure rest (.processing updateId) e))
      (hhanded : Handed a K id failure rest Rest
        (handing a K id failure rest (.processing updateId) e) m' q)
  /-- There is another fault before the chain is run, and it leaves the batch. -/
  | unhandled {f : Fault} {w : World} (h : admits e.world id = .error f) (hf : ¬ isFailure f)
      (hw : w = e.world ∨ w = e.world.log (.processing updateId))
      (hleave : InTurn a e (leaving a K updateId f w e))
      (hq : InTurn a m' (leaving a K updateId f w e) ∨ Leads (K (raised f)) q)

/-- A batch stands at its first update in `e`. What the process of `a` is at in a later state `m'`,
as `q`. -/
def Batch (a : Owner) (K : Process → Process) (id : Nat) (m' : Machine) (q : Process) :
    List Json → Machine → Prop
  | [], _ => Leads (K done) q
  | u :: rest, e => ∃ updateId, u.get "update_id" = .ok updateId ∧
      Attempt a K id u updateId rest (Batch a K id m' q rest) e m' q

/-! ## The steps of an attempt -/

/-- A bot that takes on an update runs its chain. -/
theorem InTurn.admitted (hK : Surrounds K) (hu : u.get "update_id" = .ok updateId)
    (hfocus : e.focus = some (a, K ((handleUpdate id u).andThen k)))
    (h : admits e.world id = .ok me) :
    InTurn a e { e with
      world := (e.world.log (.processing updateId)).addContext { update := u, me }
      focus := some (a, K (((Link.composer id).run e.world.contexts.length).andThen
        (wrapping updateId e.world.contexts.length k))) } := by
  have hread := (InTurn.refl e).read hK (show e.focus = some (a, K (.read _)) from hfocus)
  unfold admits at h
  split at h
  · cases h
  next b hb =>
  split at h
  · cases h
  next me' hme =>
  split at h
  · next ht =>
    cases h
    simp only [hb, hme, ht, hu] at hread
    have hk : wrapping updateId e.world.contexts.length k = fun o => Process.andThen (match o with
        | .ok _ => value (.int e.world.contexts.length)
        | .error f =>
          log (.chainFailed updateId) (raised (.failure f (some e.world.contexts.length)))) k := by
      funext o
      cases o <;> rfl
    rw [hk, ← andThen_andThen]
    exact (hread.write hK rfl).write hK rfl
  · cases h

/-- A bot that does not take on an update goes on with the fault. -/
theorem exists_refusal (hK : Surrounds K) (hu : u.get "update_id" = .ok updateId)
    (hfocus : e.focus = some (a, K ((handleUpdate id u).andThen k)))
    (h : admits e.world id = .error f) :
    ∃ w, (w = e.world ∨ w = e.world.log (.processing updateId)) ∧
      (isFailure f → w = e.world.log (.processing updateId)) ∧
      InTurn a e { e with world := w, focus := some (a, K (k (.error f))) } := by
  have hread := (InTurn.refl e).read hK (show e.focus = some (a, K (.read _)) from hfocus)
  unfold admits at h
  split at h
  · next hb =>
    cases h
    simp only [hb] at hread
    exact ⟨e.world, .inl rfl, nofun, hread⟩
  next b hb =>
  split at h
  · next hme =>
    cases h
    simp only [hb, hme] at hread
    exact ⟨e.world, .inl rfl, nofun, hread⟩
  next me hme =>
  split at h
  · cases h
  · next t ht =>
    cases h
    simp only [hb, hme, ht, hu] at hread
    exact ⟨_, .inr rfl, fun _ => rfl, hread.write hK rfl⟩

/-- A failure that is reported is handed to the handler. -/
theorem InTurn.report (h : InTurn a m s) (hK : Surrounds K) {q : Process}
    (hfocus : s.focus = some (a, K ((report id failure).followedBy q))) :
    InTurn a m (s.focusOn a (K ((handling s.world id failure).andThen (unlessFailed q)))) := by
  have hread := h.read hK (show s.focus = some (a, K (.read _)) from hfocus)
  unfold handling
  split <;> next hb =>
    simp only [hb] at hread
    exact hread

/-- The course of a handler that has been called. -/
theorem handed_of_reaches {Rest : Machine → Prop} (hs : Reachable s) (hK : Surrounds K)
    (hfocus : s.focus = some (a, K ((handling s.world id failure).andThen
      (unlessFailed (handleUpdates id rest)))))
    (hrest : ∀ e, Reachable e → e.focus = some (a, K (handleUpdates id rest)) →
      ReflTransGen Next e m' → Rest e)
    (hrun : ReflTransGen Next s m') (hq : m'.focus = some (a, q)) :
    Handed a K id failure rest Rest s m' q := by
  rcases hs.runs_or_ends hK hfocus hrun hq with ⟨p, hp, rfl⟩ | ⟨e, o, hend, hlater⟩
  · exact .handling hp rfl
  have he := hs.of_reaches hend.reaches
  cases o with
  | ok v => exact .handled hend (hrest e he hend.focus hlater)
  | error g => exact .escaped hend (he.leads (.inl hend.focus) hlater hq)

/-- The course of an attempt, given that of the rest of the batch. -/
theorem attempt_of_reaches {Rest : Machine → Prop} (he : Reachable e) (hK : Surrounds K)
    (hu : u.get "update_id" = .ok updateId)
    (hfocus : e.focus = some (a, K (handleUpdates id (u :: rest))))
    (hrest : ∀ e, Reachable e → e.focus = some (a, K (handleUpdates id rest)) →
      ReflTransGen Next e m' → Rest e)
    (hrun : ReflTransGen Next e m') (hq : m'.focus = some (a, q)) :
    Attempt a K id u updateId rest Rest e m' q := by
  rw [handleUpdates_cons] at hfocus
  rcases hadmits : admits e.world id with f | me
  · obtain ⟨w, hw, hfailure, hrefused⟩ := exists_refusal hK hu hfocus hadmits
    by_cases hf : isFailure f
    · obtain rfl := hfailure hf
      rw [afterUpdate, if_pos hf] at hrefused
      have hcall := hrefused.report hK rfl
      refine .refused hadmits hf hcall ?_
      rcases hcall.passes hrun with hbefore | hlater
      · exact .called hbefore
      · exact handed_of_reaches (he.of_reaches hcall.reaches) hK rfl hrest hlater hq
    · rw [afterUpdate, if_neg hf, hu] at hrefused
      have hleave := hrefused.write hK rfl
      refine .unhandled hadmits hf hw hleave ?_
      refine (hleave.passes hrun).imp_right fun hlater => ?_
      exact (he.of_reaches hleave.reaches).leads (.inl rfl) hlater hq
  · have hstart := InTurn.admitted hK hu hfocus hadmits
    rw [wrapping_afterUpdate] at hstart
    -- the later state is before the start of the chain, in it, or after its end
    rcases hstart.passes hrun with hbefore | hrun
    · exact .starting hadmits hbefore
    have hs := he.of_reaches hstart.reaches
    rcases hs.runs_or_ends hK rfl hrun hq with ⟨p, hp, rfl⟩ | ⟨e', o, hend, hlater⟩
    · exact .running hadmits hstart hp rfl
    have he' := hs.of_reaches hend.reaches
    cases o with
    | ok v => exact .returned hadmits hstart hend (hrest e' he' hend.focus hlater)
    | error f =>
      have hcall := ((InTurn.refl e').write hK hend.focus).report hK rfl
      refine .failed hadmits hstart hend hcall ?_
      rcases hcall.passes hlater with hbefore | hlater
      · exact .called hbefore
      · exact handed_of_reaches (he'.of_reaches hcall.reaches) hK rfl hrest hlater hq

/-- Wherever a batch of objects is handled and however the run goes on, the process is at one of the
points of its course. -/
theorem batch_course (he : Reachable e) (hK : Surrounds K)
    (hus : ∀ u ∈ us, ∃ updateId, u.get "update_id" = .ok updateId)
    (hfocus : e.focus = some (a, K (handleUpdates id us))) (hrun : ReflTransGen Next e m')
    (hq : m'.focus = some (a, q)) : Batch a K id m' q us e := by
  induction us generalizing e with
  | nil => exact he.leads (.inl hfocus) hrun hq
  | cons u rest ih =>
    obtain ⟨⟨updateId, hu⟩, hrest⟩ := List.forall_mem_cons.mp hus
    exact ⟨updateId, hu, attempt_of_reaches he hK hu hfocus
      (fun e he hfocus hlater => ih he hrest hfocus hlater) hrun hq⟩

end Machine

end UpdateDispatch
