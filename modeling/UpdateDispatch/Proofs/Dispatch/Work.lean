import UpdateDispatch.Proofs.Dispatch.Sharing
import Mathlib.Logic.Hydra

/-!
# Work that runs out

A run of `init` calls comes to an end in any order of turns. Its processes are trees of finite
depth, although no bound is known for all states: a request may be suspended as often as the client
of that moment says. So what is left to do is a multiset (`Machine.work`), and every step replaces
one piece of work by finitely many lesser ones (`Machine.Moves.lessens`), which cannot go on for
ever (`Machine.Serving.acc`). When nothing goes on any more, everybody has ended
(`Machine.Serving.over_of_stopped`).
-/

namespace UpdateDispatch

open Relation

namespace Machine

open Process UpdateDispatch.Bot

variable {id i t : Nat} {m m' : Machine} {a : Owner} {p q : Process} {o : Outcome} {c : Client}

theorem acc_child (p : Process) : Acc Process.Child p := by
  induction p with
  | read k ih =>
    refine ⟨_, fun q hq => ?_⟩
    cases hq
    exact ih _
  | write f p ih =>
    refine ⟨_, fun q hq => ?_⟩
    cases hq
    exact ih
  | pause p ih =>
    refine ⟨_, fun q hq => ?_⟩
    cases hq
    exact ih
  | start p k ihp ihk =>
    refine ⟨_, fun q hq => ?_⟩
    cases hq with
    | start => exact ihk _
    | started => exact ihp
  | await t k ih =>
    refine ⟨_, fun q hq => ?_⟩
    cases hq
    exact ih _
  | _ => exact ⟨_, fun q hq => nomatch hq⟩

/-- What a process has yet to do: it runs, has a turn, or waits for a shared task. -/
inductive Work where
  | running (p : Process)
  | queued (p : Process)
  | waiting (k : Outcome → Process)

/-- Work that can come out of other work. -/
inductive Work.Less : Work → Work → Prop
  | goesOn {p q : Process} (h : q.Child p) : Less (.running q) (.running p)
  | queues {p q : Process} (h : q.Child p) : Less (.queued q) (.running p)
  | waits (t : Nat) (k : Outcome → Process) : Less (.waiting k) (.running (.await t k))
  | turn (p : Process) : Less (.running p) (.queued p)
  | wakes (k : Outcome → Process) (o : Outcome) : Less (.queued (k o)) (.waiting k)

theorem Work.Less.wf : WellFounded Work.Less := by
  have hrunning : ∀ p, Acc Work.Less (.running p) := fun p => by
    induction acc_child p with
    | intro p _ ih =>
      have hqueued : ∀ q, q.Child p → Acc Work.Less (.queued q) := fun q hq => by
        refine ⟨_, fun r hr => ?_⟩
        cases hr
        exact ih q hq
      refine ⟨_, fun r hr => ?_⟩
      cases hr with
      | goesOn hq => exact ih _ hq
      | queues hq => exact hqueued _ hq
      | waits t k =>
        refine ⟨_, fun r hr => ?_⟩
        cases hr with
        | wakes _ o => exact hqueued _ (.await t k o)
  have hqueued : ∀ p, Acc Work.Less (.queued p) := fun p => by
    refine ⟨_, fun r hr => ?_⟩
    cases hr
    exact hrunning p
  refine ⟨fun r => ?_⟩
  cases r with
  | running p => exact hrunning p
  | queued p => exact hqueued p
  | waiting k =>
    refine ⟨_, fun r hr => ?_⟩
    cases hr
    exact hqueued _

/-- The work of a turn. -/
def turnWork : Turn → List Work
  | .resume _ p => [.queued p]
  | .settled .. => []

/-- The work of those that wait for a shared task. -/
def sharedWork : Shared → List Work
  | .running ws => ws.map fun w => .waiting w.2
  | .finished _ => []

/-- The work of all processes. -/
def work (m : Machine) : List Work :=
  (m.focus.map fun r => Work.running r.2).toList ++
    (m.ready.flatMap turnWork ++ m.tasks.flatMap sharedWork)

/-- Some work is done, and other work may have come out of it. -/
def Lessens (l' l : List Work) : Prop := TransGen (CutExpand Work.Less) (l' : Multiset Work) l

theorem cutExpand_of_perm {x : Work} {l l' rest : List Work} (ys : List Work)
    (hl : l.Perm (x :: rest)) (hl' : l'.Perm (ys ++ rest)) (hys : ∀ y ∈ ys, Work.Less y x) :
    CutExpand Work.Less (l' : Multiset Work) l := by
  refine ⟨ys, x, hys, ?_⟩
  rw [Multiset.coe_eq_coe.mpr hl, Multiset.coe_eq_coe.mpr hl', ← Multiset.cons_coe,
    ← Multiset.coe_add, ← Multiset.singleton_add]
  abel

/-- One piece of work becomes another one. -/
theorem lessens_of_less {x y : Work} {l l' rest : List Work} (hl : l.Perm (x :: rest))
    (hl' : l'.Perm (y :: rest)) (hy : Work.Less y x) : Lessens l' l :=
  .single (cutExpand_of_perm [y] hl hl' fun _ hz => List.mem_singleton.mp hz ▸ hy)

theorem work_of_focus (hfocus : m.focus = some (a, p)) :
    work m = .running p :: (m.ready.flatMap turnWork ++ m.tasks.flatMap sharedWork) := by
  rw [work, hfocus]
  rfl

theorem work_of_idle (hfocus : m.focus = none) :
    work m = m.ready.flatMap turnWork ++ m.tasks.flatMap sharedWork := by
  rw [work, hfocus]
  rfl

/-- All that wait are woken. -/
theorem reflTransGen_wake (ks : List (Outcome → Process)) (o : Outcome) (rest : List Work) :
    ReflTransGen (CutExpand Work.Less) (↑(ks.map (fun k => Work.queued (k o)) ++ rest))
      (↑(ks.map Work.waiting ++ rest) : Multiset Work) := by
  induction ks with
  | nil => exact .refl
  | cons k ks ih =>
    have hothers := ih.lift (p := CutExpand Work.Less) (fun l => {Work.waiting k} + l)
      fun _ _ h => (cutExpand_add_left _).mpr h
    refine .head (cutExpand_of_perm [.queued (k o)] (.refl _) (.refl _) ?_) hothers
    intro y hy
    rw [List.mem_singleton.mp hy]
    exact .wakes k o

theorem turnWork_woken (ws : List (Owner × (Outcome → Process))) (o : Outcome) :
    (woken ws o).flatMap turnWork = (ws.map Prod.snd).map fun k => Work.queued (k o) := by
  rw [woken, List.flatMap_map, List.map_map, List.map_eq_flatMap]
  rfl

/-- A process that starts a shared task goes on, and the task is queued. -/
theorem lessens_requests {r : Process} {b : Owner} (hfocus : m.focus = some (a, p))
    (hq : Work.Less (.running q) (.running p)) (hr : Work.Less (.queued r) (.running p)) :
    Lessens (work { m with
      focus := some (b, q)
      tasks := m.tasks ++ [.running []]
      ready := m.ready ++ [.resume (.shared m.tasks.length) r] }) (work m) := by
  have hperm : (work { m with
      focus := some (b, q)
      tasks := m.tasks ++ [.running []]
      ready := m.ready ++ [.resume (.shared m.tasks.length) r] }).Perm
      ([.running q, .queued r] ++ (m.ready.flatMap turnWork ++ m.tasks.flatMap sharedWork)) := by
    rw [work_of_focus rfl]
    simp only [List.flatMap_append, List.flatMap_singleton, turnWork, sharedWork, List.map_nil,
      List.append_nil, List.append_assoc, List.cons_append, List.nil_append]
    exact List.perm_middle.cons _
  refine .single (cutExpand_of_perm _ (.of_eq (work_of_focus hfocus)) hperm fun y hy => ?_)
  rcases List.mem_pair.mp hy with rfl | rfl
  · exact hq
  · exact hr

/-- A shared task that ends is done, and all that wait for it are woken. -/
theorem lessens_ends {ws : List (Owner × (Outcome → Process))}
    (hfocus : m.focus = some (.shared t, ended o)) (ht : m.tasks[t]? = some (.running ws)) :
    Lessens (work { m.idle with
      tasks := m.tasks.set t (.finished o)
      ready := m.ready ++ woken ws o }) (work m) := by
  have hset := perm_flatMap_set sharedWork ht (.finished o)
  have hwaiting : sharedWork (.running ws) = (ws.map Prod.snd).map Work.waiting := by
    rw [List.map_map]
    rfl
  generalize hrest : (m.tasks.set t (.finished o)).flatMap sharedWork = rest at hset
  have hafter : (work { m.idle with
      tasks := m.tasks.set t (.finished o)
      ready := m.ready ++ woken ws o }).Perm
      ((ws.map Prod.snd).map (fun k => Work.queued (k o)) ++
        (m.ready.flatMap turnWork ++ rest)) := by
    rw [work_of_idle rfl, List.flatMap_append, turnWork_woken, hrest, List.append_assoc]
    exact List.perm_append_comm_assoc ..
  have hbefore : (work m).Perm (.running (ended o) ::
      ((ws.map Prod.snd).map Work.waiting ++ (m.ready.flatMap turnWork ++ rest))) := by
    rw [work_of_focus hfocus, ← hwaiting]
    exact ((hset.symm.append_left _).trans (List.perm_append_comm_assoc ..)).cons _
  rw [Lessens, Multiset.coe_eq_coe.mpr hafter]
  exact .tail' (reflTransGen_wake _ o _) (cutExpand_of_perm [] hbefore (.refl _)
    (List.forall_mem_nil _))

/-- Every step replaces some work by lesser work. -/
theorem Moves.lessens (hmoves : Moves id m m') : Lessens (work m') (work m) := by
  cases hmoves with
  | @turn a p before after hfocus hready _ =>
    refine lessens_of_less ?_ (.refl _) (.turn p)
    rw [work_of_idle hfocus, hready]
    simp only [List.flatMap_append, List.flatMap_cons, List.append_assoc]
    exact List.perm_middle
  | goesOn hfocus h =>
    rw [work_of_focus hfocus]
    exact lessens_of_less (.refl _) (.refl _) (.goesOn h.child)
  | requests hfocus => exact lessens_requests hfocus (.goesOn (.start ..)) (.queues (.started ..))
  | @waits i t c ws hfocus ht =>
    rw [work_of_focus hfocus]
    refine lessens_of_less (.refl _) ?_ (.waits t (afterFetch id c t))
    have hset := perm_flatMap_set sharedWork ht (.running (ws ++ [(.root i, afterFetch id c t)]))
    rw [sharedWork, sharedWork, List.map_append, List.append_assoc, List.perm_append_left_iff]
      at hset
    exact (hset.append_left _).trans List.perm_middle
  | returns hfocus =>
    rw [work_of_focus hfocus]
    exact .single (cutExpand_of_perm [] (.refl _) (.refl _) (List.forall_mem_nil _))
  | @suspends t n o hfocus =>
    rw [work_of_focus hfocus]
    refine lessens_of_less (.refl _) ?_ (.queues (.pause (pauses n (ended o))))
    rw [work_of_idle rfl, queue, List.flatMap_append, List.append_assoc]
    exact List.perm_middle
  | ends hfocus ht => exact lessens_ends hfocus ht

/-- There is no run that goes on for ever. -/
theorem Serving.acc (h : Serving id m) (hd : Distinct m) : Acc (fun m' m => Next m m') m := by
  have hwf : WellFounded Lessens := (Work.Less.wf.cutExpand.transGen).onFun
  generalize hl : work m = l
  induction hwf.apply l generalizing m with
  | intro l _ ih =>
    subst hl
    refine ⟨_, fun m' hnext => ?_⟩
    have hmoves := h.moves hd hnext
    exact ih _ hmoves.lessens (h.next hmoves) (hd.next hmoves) rfl

/-- When nothing can go on any more, everybody has ended. -/
theorem Serving.over_of_stopped (h : Serving id m) (hd : Distinct m) (hstep : m.step = none)
    (i : Nat) : m.roots[i]? ≠ some none := by
  have hidle : pending m = m.tasks.flatMap awaiters := by
    rw [Machine.step] at hstep
    split at hstep
    · cases hstep
    · next hfocus =>
      split at hstep
      · next hready => rw [pending_of_idle hfocus, resting, hready, List.map_nil, List.nil_append]
      · cases hstep
      · cases hstep
  -- whoever waits for a request is a root
  have hwaits : ∀ a ∈ pending m, ∃ j t, a = .root j ∧ InFlight m t := by
    intro a ha
    rw [hidle] at ha
    obtain ⟨s, hs, ha⟩ := List.mem_flatMap.mp ha
    obtain ⟨t, ht⟩ := List.getElem?_of_mem hs
    cases s with
    | finished o => cases ha
    | running ws =>
      obtain ⟨⟨a, k⟩, hk, rfl⟩ := List.mem_map.mp ha
      obtain ⟨j, c, rfl, -⟩ := h.waiters ht hk
      exact ⟨j, t, rfl, ws, ht⟩
  intro hroot
  obtain ⟨_, t, -, ht⟩ := hwaits _ ((hd.root i).mpr hroot)
  obtain ⟨_, _, heq, -⟩ := hwaits _ ((hd.shared t).mpr ht)
  cases heq

end Machine

end UpdateDispatch
