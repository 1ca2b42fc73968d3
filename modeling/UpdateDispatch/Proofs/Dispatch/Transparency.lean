import UpdateDispatch.Proofs.Dispatch.Completion

/-!
# A forked branch and the rest of its chain

What a forked branch makes of the rest of its chain is what an empty registration in its place would
(`Machine.fork_unnoticed_by_rest`): the rest notes the same, and the run leaves the same contexts
and ends with the same fault or with none, provided that the branch changes nothing that others see,
that it does not raise, and that no other fork is reached. The run with the branch ends when that
without it does, if its branches come to an end. Both runs do what one lone process does.
-/

namespace UpdateDispatch

open Relation

namespace Variants

variable {V : Variants} {N : Numbers} {R : Numbers → World → World → Prop} {p : Process}

/-- What a dispatcher is asked to do is the same for the same composers. -/
theorem later_of_dispatches (hR : V.Views R) (hids : ∀ id, V.Composers id id)
    (hp : Process.Dispatches p) : V.Later R N p p := by
  cases hp with
  | run l x => exact (later_call hR (l.same_self fun id _ => hids id) handed_leaf).ignored hR
  | handleUpdate id update => exact later_handleUpdate hR (hids id) update
  | handleUpdates id updates => exact later_handleUpdates hR (hids id) updates

theorem forks_forking (side : Nat) : (forking side).Forks side where
  faithful := faithful_forking side
  beside h := h
  left := rfl
  right := rfl
  kept _ := trivial

theorem forks_plain (side : Nat) : plain.Forks side where
  faithful := faithful_plain _
  beside h := h.elim
  left := rfl
  right := rfl
  kept _ := trivial

theorem Shows.registered {side : Nat} {w w' : World} (h : (forking side).Shows {} w w')
    (registers : List (String × Middleware)) :
    (forking side).Shows {} { w with registers } { w' with registers } where
  stores := { h.stores with
    registers := List.forall₂_same.mpr fun r _ =>
      ⟨rfl, r.2.same_self fun id _ => composers_numbered id⟩ }
  client := h.client
  contexts := h.contexts
  marks := h.marks

theorem Shows.after {w w' : World} (h : V.Shows {} w w') (steps : List Step) :
    V.Shows {} (w.after steps) (w'.after steps) := by
  induction steps generalizing w w' with
  | nil => exact h
  | cons s rest ih =>
    rcases (builds_step (views_shows.basis {}) s).cases h with
      ⟨f, v, v', hv, hv', hshows⟩ | ⟨_, _, v, v', hv, hv', -, hshows⟩
    · have hrest := ih hshows
      rwa [← show ((Build.step s).outcome w).2 = v by rw [hv],
        ← show ((Build.step s).outcome w').2 = v' by rw [hv']] at hrest
    · have hrest := ih hshows
      rwa [← show ((Build.step s).outcome w).2 = v by rw [hv],
        ← show ((Build.step s).outcome w').2 = v' by rw [hv']] at hrest

end Variants

namespace Machine

open Process

variable {side : Nat} {v v' u : World} {p : Process} {m m' : Machine} {s : Lone} {V : Variants}
  {f : Option Fault} {o : Outcome}

theorem goes_run (n : Nat) (m : Machine) : ReflTransGen Goes m (run n m) := by
  induction n generalizing m with
  | zero => exact .refl
  | succ n ih =>
    rcases hstep : m.step with _ | m'
    · rw [run_of_stopped hstep]
    · rw [run_of_goes hstep]
      exact .head hstep (ih m')

theorem exists_run (h : ReflTransGen Goes m m') : ∃ n, run n m = m' := by
  induction h with
  | refl => exact ⟨0, rfl⟩
  | tail _ hgo ih =>
    obtain ⟨n, rfl⟩ := ih
    exact ⟨n + 1, run_succ n m hgo⟩

theorem exists_run_of_transGen (h : TransGen Goes m m') : ∃ n > 0, run n m = m' := by
  obtain ⟨m₁, hgo, h⟩ := TransGen.head'_iff.mp h
  obtain ⟨n, rfl⟩ := exists_run h
  exact ⟨n + 1, Nat.succ_pos n, run_of_goes hgo n⟩

/-- A run that has stopped has passed all that it comes to. -/
theorem forall_reached {P : Machine → Prop} {k : Nat} (hstop : (run k m).step = none)
    (h : ∀ n ≤ k, P (run n m)) : ∀ m', ReflTransGen Goes m m' → P m' := by
  intro m' hgo
  obtain ⟨n, rfl⟩ := exists_run hgo
  rcases Nat.le_total n k with hle | hle
  · exact h n hle
  · obtain ⟨i, rfl⟩ := Nat.exists_eq_add_of_le hle
    rw [run_add_of_stopped hstop]
    exact h k (Nat.le_refl k)

/-- At the start of a run, the rest is where the lone process is. -/
theorem abreast_ofRoots (hw : V.Shows {} v v') (hp : V.Later V.Shows {} p p) :
    Abreast V side (ofRoots v [p]) v' (ofRoots v [p]) ⟨[], v', p.andThen ended⟩ := by
  refine ⟨{}, [], .root 0, ended, .inr ⟨[], [.resume (.root 0) p], ?_⟩⟩
  exact
    { noted := ⟨[], [], .start, (List.append_nil _).symm, (List.append_nil _).symm,
        fun _ => ⟨(List.append_nil _).symm, (List.append_nil _).symm⟩⟩
      reaches := .refl
      roots := rfl
      world := hw
      guards := .nil _ _ _
      waits := .root
      focus := nofun
      ready := ⟨[], [], rfl, nofun⟩
      turns := .queued hp rfl }

theorem reachable_ofRoots (hp : Dispatches p) : Reachable (ofRoots v [p]) :=
  ⟨v, [p], List.forall_mem_singleton.mpr hp, .refl⟩

/-- Where the root is about to end, the run is over but for that step. -/
theorem stops_of_root (hp : Dispatches p) (hgo : ReflTransGen Goes (ofRoots v [p]) m)
    (hfocus : m.focus = some (.root 0, ended o)) :
    Goes m (m.finish (.root 0) o) ∧ (m.finish (.root 0) o).step = none := by
  have hstart : Reachable (ofRoots v [p]) := reachable_ofRoots hp
  have hrun := nexts_of_goes hgo
  have hready := ((oneRoot_ofRoots v p).of_reaches hstart hrun).ready_eq_nil
    (hstart.of_reaches hrun) hfocus
  constructor
  · rw [Goes, step_of_focus hfocus]
    cases o <;> rfl
  · simp [step, finish, idle, hready]

theorem endsWith_of_root (hp : Dispatches p) (hgo : ReflTransGen Goes (ofRoots v [p]) m)
    (hfocus : m.focus = some (.root 0, ended o)) (hroots : m.roots = [none]) :
    EndsWith (ofRoots v [p]) m.world (Outcome.fault? o) := by
  obtain ⟨hfinish, hstop⟩ := stops_of_root hp hgo hfocus
  refine .of_reaches (hgo.tail hfinish) ⟨0, o, hstop, rfl, ?_, rfl⟩
  simp [run, finish, hroots]

theorem abreast_forking (hp : Dispatches p) (hshows : (Variants.forking side).Shows {} v v') :
    Abreast (.forking side) side (ofRoots v [p]) v' (ofRoots v [p]) ⟨[], v', p.andThen ended⟩ :=
  abreast_ofRoots hshows
    (Variants.later_of_dispatches Variants.views_shows Variants.composers_numbered hp)

theorem abreast_plain (hp : Dispatches p) (v : World) :
    Abreast .plain side (ofRoots v [p]) v (ofRoots v [p]) ⟨[], v, p.andThen ended⟩ :=
  abreast_ofRoots (Variants.shows_self v nofun)
    (Variants.later_of_dispatches Variants.views_shows Variants.composers_plain hp)

section Plain

variable (hp : Dispatches p)
  (hplain : ∀ m, ReflTransGen Goes (ofRoots v' [p]) m → ¬ ReachesFork m)

include hp hplain

omit hp in
theorem not_branchAt_of_plain (j : Nat) : ¬ BranchAt side (ofRoots v' [p]) j :=
  fun ⟨m, a, q, x, k, hgo, hfocus, _⟩ => hplain m hgo ⟨a, q, side, x, k, hfocus⟩

omit hp in
theorem not_inBranch_of_plain {a : Owner} : ¬ InBranch side (ofRoots v' [p]) m a :=
  fun ⟨j, hj, _⟩ => not_branchAt_of_plain hplain j hj

/-- Where the lone process is stuck, it has ended, and the run without branches has come to the same
end. -/
theorem ends_of_stuck (side : Nat) {t : Lone}
    (hs : ReflTransGen Lone.Goes ⟨[], v', p.andThen ended⟩ t)
    (hstuck : ∀ u, ¬ Lone.Goes t u) :
    ∃ m o, EndsWith (ofRoots v' [p]) m.world (Outcome.fault? o) ∧ t.Ended o ∧
      t.world.contexts = m.world.contexts ∧ Notes side (ofRoots v' [p]) v' m t.world := by
  have habreast : Abreast _ side _ _ _ _ := abreast_plain hp v'
  have hover : BranchesOver side (ofRoots v' [p]) (ofRoots v' [p]) := by
    rintro m - (⟨b, q, -, hb⟩ | ⟨-, t, rest, -, hb⟩)
    · exact not_inBranch_of_plain hplain hb
    · exact not_inBranch_of_plain hplain hb
  cases habreast.arrives_of_lone (Variants.forks_plain side) (reachable_ofRoots hp)
    (lively_ofRoots hp) hover hs hstuck with
  | closes hgo hs₁ h₁ hfocus hended =>
    obtain rfl := Lone.eq_of_stuck hs hstuck hs₁ fun u hu => hu.not_ended hended
    obtain ⟨N, ws, a, K, hrest⟩ := h₁.exists_rest
    exact ⟨_, _, endsWith_of_root hp hgo hfocus hrest.roots, hended, hrest.world.contexts,
      hrest.noted⟩
  | forks hgo _ hm => exact absurd hm (hplain _ hgo)

/-- A run without branches that comes to its end has come to the one of the lone process. -/
theorem exists_ended_of_endsWith (hend : EndsWith (ofRoots v' [p]) u f) :
    ∃ t o, ReflTransGen Lone.Goes ⟨[], v', p.andThen ended⟩ t ∧ t.Ended o ∧
      Outcome.fault? o = f := by
  obtain ⟨n, o, hstep, hworld, hroots, hfault⟩ := id hend
  have habreast : Abreast _ 0 _ _ _ _ := abreast_plain hp v'
  have hside : Unobtrusive 0 (ofRoots v' [p]) :=
    { keeps := fun _ _ hb => absurd hb (not_inBranch_of_plain hplain)
      succeeds := fun _ hj => absurd hj (not_branchAt_of_plain hplain _) }
  cases habreast.arrives (Variants.forks_plain 0) (reachable_ofRoots hp) (lively_ofRoots hp) hside
    hstep with
  | closes hgo hs h₁ hfocus hended =>
    obtain ⟨N, ws, a, K, hrest⟩ := h₁.exists_rest
    obtain ⟨-, rfl⟩ := hend.unique (endsWith_of_root hp hgo hfocus hrest.roots)
    exact ⟨_, _, hs, hended, rfl⟩
  | forks hgo _ hm => exact absurd hm (hplain _ hgo)

end Plain

/-! ## A run with branches -/

section Branches

variable (hp : Dispatches p) (hshows : (Variants.forking side).Shows {} v v')
  (hside : Unobtrusive side (ofRoots v [p]))
  (hplain : ∀ m, ReflTransGen Goes (ofRoots v' [p]) m → ¬ ReachesFork m)

include hp hshows hside

/-- The run with branches passes where the lone process is, later than after any number of steps,
unless it comes to its end before. -/
theorem exists_abreast (k : Nat) :
    Arrives (.forking side) side (ofRoots v [p]) v' (ofRoots v [p]) ⟨[], v', p.andThen ended⟩ ∨
      ∃ n ≥ k, ∃ s, ReflTransGen Lone.Goes ⟨[], v', p.andThen ended⟩ s ∧
        Abreast (.forking side) side (ofRoots v [p]) v' (run n (ofRoots v [p])) s := by
  induction k with
  | zero => exact .inr ⟨0, Nat.le_refl 0, _, .refl, abreast_forking hp hshows⟩
  | succ k ih =>
    rcases ih with harrives | ⟨n, hn, s, hs, habreast⟩
    · exact .inl harrives
    · have hgoes := goes_run n (ofRoots v [p])
      cases habreast.continues (Variants.forks_forking side) (reachable_ofRoots hp)
        (lively_ofRoots hp) hside with
      | closes hfocus hended => exact .inl (.closes hgoes hs habreast hfocus hended)
      | forks hm hfork => exact .inl (.forks hgoes hs hm hfork)
      | moves hgo hs₁ h₁ =>
        obtain ⟨i, hi, rfl⟩ := exists_run_of_transGen hgo
        rw [← run_add] at h₁
        exact .inr ⟨n + i, by omega, _, hs.trans hs₁, h₁⟩

include hplain

/-- If the run with branches comes to its end, the run without them comes to the same one. -/
theorem ends_of_branches (hend : EndsWith (ofRoots v [p]) u f) :
    ∃ u' e es ns, EndsWith (ofRoots v' [p]) u' f ∧ u'.contexts = u.contexts ∧
      NotedByRest side (ofRoots v [p]) e es ns ∧ e.step = none ∧ e.world = u ∧
      u'.events = v'.events ++ es ∧ u'.notices = v'.notices ++ ns := by
  obtain ⟨n, -, hstep, -⟩ := id hend
  cases (abreast_forking hp hshows).arrives (Variants.forks_forking side) (reachable_ofRoots hp)
    (lively_ofRoots hp) hside hstep with
  | @closes m₁ s₁ o₁ hgo hs h₁ hfocus hended =>
    obtain ⟨N, ws, a, K, hrest⟩ := h₁.exists_rest
    obtain ⟨rfl, rfl⟩ := hend.unique (endsWith_of_root hp hgo hfocus hrest.roots)
    obtain ⟨m₂, o₂, hend₂, hended₂, hcontexts, hnoted⟩ :=
      ends_of_stuck hp hplain side hs fun u hu => hu.not_ended hended
    obtain rfl := hended.unique hended₂
    obtain ⟨hfinish, hstop⟩ := stops_of_root hp hgo hfocus
    obtain ⟨es, ns, hn, hevents, hnotices, -⟩ := hrest.noted
    obtain ⟨es', ns', -, hevents', hnotices', hall⟩ := hnoted
    obtain ⟨hevents₂, hnotices₂⟩ := hall (not_branchAt_of_plain hplain)
    have hes : es' = es := List.append_cancel_left (hevents'.symm.trans hevents)
    have hns : ns' = ns := List.append_cancel_left (hnotices'.symm.trans hnotices)
    exact ⟨m₂.world, _, es, ns, hend₂, hcontexts.symm.trans hrest.world.contexts,
      hn.silent ⟨hfinish, rfl, rfl⟩, hstop, rfl, hes ▸ hevents₂, hns ▸ hnotices₂⟩
  | forks hgo hs _ hfork =>
    obtain ⟨m₂, o₂, -, hended, -⟩ :=
      ends_of_stuck hp hplain side hs fun u hu => hu.not_atFork hfork
    exact absurd hfork hended.not_atFork

/-- If the run without branches comes to its end, the one with them does so as well, if its branches
do. -/
theorem ends_of_plain (hend : EndsWith (ofRoots v' [p]) u f)
    (hover : ∃ k, ∀ n ≥ k, ¬ BranchGoes side (ofRoots v [p]) (run n (ofRoots v [p]))) :
    ∃ u', EndsWith (ofRoots v [p]) u' f := by
  obtain ⟨t, o, hs, hended, rfl⟩ := exists_ended_of_endsWith hp hplain hend
  have hstuck : ∀ u, ¬ Lone.Goes t u := fun u hu => hu.not_ended hended
  obtain ⟨k, hk⟩ := hover
  have harrives : Arrives (.forking side) side (ofRoots v [p]) v' (ofRoots v [p])
      ⟨[], v', p.andThen ended⟩ := by
    rcases exists_abreast hp hshows hside k with harrives | ⟨n, hn, s, hs₁, habreast⟩
    · exact harrives
    · have hover : BranchesOver side (ofRoots v [p]) (run n (ofRoots v [p])) := by
        intro m hm
        obtain ⟨i, rfl⟩ := exists_run hm
        rw [← run_add]
        exact hk _ (by omega)
      exact (habreast.arrives_of_lone (Variants.forks_forking side) (reachable_ofRoots hp)
        (lively_ofRoots hp) hover (Lone.reaches_of_stuck hs₁ hs hstuck) hstuck).of_reaches
        (goes_run n _) hs₁
  cases harrives with
  | closes hgo hs₁ h₁ hfocus hended₁ =>
    obtain rfl := Lone.eq_of_stuck hs hstuck hs₁ fun u hu => hu.not_ended hended₁
    obtain rfl := hended.unique hended₁
    obtain ⟨N, ws, a, K, hrest⟩ := h₁.exists_rest
    exact ⟨_, endsWith_of_root hp hgo hfocus hrest.roots⟩
  | forks hgo hs₁ _ hfork =>
    obtain rfl := Lone.eq_of_stuck hs hstuck hs₁ fun u hu => hu.not_atFork hfork
    exact absurd hfork hended.not_atFork

end Branches

/-! ## Forks -/

/-- The run of a machine comes to its end in the state `u`, and what is noted and logged in it but
by the branches of `side` is `es` and `ns`. -/
def RestNotes (side : Nat) (m : Machine) (u : World) (es : List Event) (ns : List Notice) : Prop :=
  ∃ e, NotedByRest side m e es ns ∧ e.step = none ∧ e.world = u

/-- A fork calls the rest of its chain once and runs its branch beside it, where the branch has
nothing to go on with. What it makes of the rest is what no functions in its place would: whatever
is registered afterwards, if the branches change nothing that others see and do not raise, and if no
other branch would be started, then a run that ends leaves the same contexts and ends with the same
fault or with none, and the rest notes what is noted in the run without the branches. And if that
run ends, so does the one with the branches, as soon as these have come to their ends. -/
theorem fork_unnoticed_by_rest {id side : Nat} {mw : List Middleware} {w w₁ : World}
    (hfork : (Build.fork id mw).outcome w = (.ok side, w₁)) :
    ∃ w₂, (Build.unforked id mw).outcome w = (.ok side, w₂) ∧
      (∀ x next, (Link.fork side).call x next = .deferred (next.onCall (forked side x))) ∧
      ∀ registers steps p, Dispatches p →
        let v := World.after steps { w₁ with registers }
        let v' := World.after steps { w₂ with registers }
        Unobtrusive side (ofRoots v [p]) →
        (∀ m, ReflTransGen Goes (ofRoots v' [p]) m → ¬ ReachesFork m) →
        (∀ u f, EndsWith (ofRoots v [p]) u f → ∃ u' es ns, EndsWith (ofRoots v' [p]) u' f ∧
          u'.contexts = u.contexts ∧ RestNotes side (ofRoots v [p]) u es ns ∧
          u'.events = v'.events ++ es ∧ u'.notices = v'.notices ++ ns) ∧
        ∀ u' f, EndsWith (ofRoots v' [p]) u' f →
          (∃ k, ∀ n ≥ k, ¬ BranchGoes side (ofRoots v [p]) (run n (ofRoots v [p]))) →
          ∃ u, EndsWith (ofRoots v [p]) u f := by
  obtain ⟨w₂, hunforked, hshows⟩ := Build.exists_unforked hfork
  refine ⟨w₂, hunforked, fun x next => ?_, ?_⟩
  · rw [Link.call, fork_eq_onCall]
  intro registers steps p hp v v' hside hplain
  have hafter : (Variants.forking side).Shows {} v v' :=
    (hshows.registered registers).after steps
  refine ⟨fun u f hend => ?_, fun u' f hend hover => ?_⟩
  · obtain ⟨u', e, es, ns, hend', hcontexts, hnoted, hstop, hworld, hevents, hnotices⟩ :=
      ends_of_branches hp hafter hside hplain hend
    exact ⟨u', es, ns, hend', hcontexts, ⟨e, hnoted, hstop, hworld⟩, hevents, hnotices⟩
  · exact ends_of_plain hp hafter hside hplain hend hover

/-- A composer with a function that notes a value before and after the rest of its chain. -/
def wrappedWorld : World :=
  (Build.outcome
    (Build.composerOf [.link
      (.script { actions := [.note (.str "a"), .next, .note (.str "z")], plain := false })])
    { client := none, me := default, contexts := [default] }).2

/-- A branch that suspends, notes a value and calls its continuation twice. -/
def suspending : Middleware :=
  .link (.script { actions := [.pause 1, .note (.str "f"), .next, .next], plain := false })

/-- A function that suspends and notes a value, registered on the composer `c`. -/
def besideSteps : List Step :=
  [.register "c" none (.use [.script [.pause 1, .note (.str "b"), .next] false])]

/-- A run of the composer after a registration and the later ones. -/
def besideRun (b : Build Nat) : Machine :=
  ofRoots (World.after besideSteps
    { (b.outcome wrappedWorld).2 with registers := [("c", .composer 0)] })
    [(Link.composer 0).run 0]

/-- Whether the process of a side has raised. -/
def sideRaises (m : Machine) : Bool :=
  match m.focus with
  | some (.side _ _, .raised _) => true
  | _ => false

/-- Whether the running process is about to start two sides. -/
def splits (m : Machine) : Bool :=
  match m.focus with
  | some (_, .both ..) => true
  | _ => false

theorem unobtrusive_suspending : Unobtrusive 1 (besideRun (Build.fork 0 [suspending])) := by
  have hstop : (run 33 (besideRun (Build.fork 0 [suspending]))).step = none := rfl
  have hkeeps : ∀ n ≤ 33, (run n (besideRun (Build.fork 0 [suspending]))).world.NotesOnly
      (run 1 (run n (besideRun (Build.fork 0 [suspending])))).world := by
    intro n hn
    interval_cases n <;> exact ⟨_, _, _, rfl⟩
  have hraises : ∀ n ≤ 33, (run n (besideRun (Build.fork 0 [suspending]))).sideRaises = false := by
    decide +kernel
  constructor
  · intro m b p hgo hfocus _
    have hm := forall_reached (P := fun m => m.world.NotesOnly (run 1 m).world) hstop hkeeps m hgo
    rwa [run_of_goes (step_of_focus hfocus) 0] at hm
  · intro m j f hgo _ hfocus
    have hm := forall_reached (P := fun m => m.sideRaises = false) hstop hraises m hgo
    rw [sideRaises, hfocus] at hm
    cases hm

/-- The branch suspends and notes its value while the rest of the chain runs, and the rest notes
what it does without the branch. -/
theorem fork_unnoticed_by_rest_suspending : ∃ u u' ns,
    EndsWith (besideRun (Build.fork 0 [suspending])) u none ∧
    EndsWith (besideRun (Build.unforked 0 [suspending])) u' none ∧
    u.events = [.note (.str "a"), .note (.str "b"), .note (.str "f"), .note (.str "z")] ∧
    u'.events = [.note (.str "a"), .note (.str "b"), .note (.str "z")] ∧
    RestNotes 1 (besideRun (Build.fork 0 [suspending])) u u'.events ns := by
  have hfork : (Build.fork 0 [suspending]).outcome wrappedWorld =
      (.ok 1, ((Build.fork 0 [suspending]).outcome wrappedWorld).2) := rfl
  obtain ⟨w₂, hunforked, -, hruns⟩ := fork_unnoticed_by_rest hfork
  obtain rfl : w₂ = ((Build.unforked 0 [suspending]).outcome wrappedWorld).2 := by rw [hunforked]
  have hstop : (run 30 (besideRun (Build.unforked 0 [suspending]))).step = none := rfl
  have hsplits : ∀ n ≤ 30, (run n (besideRun (Build.unforked 0 [suspending]))).splits = false := by
    decide +kernel
  have hplain : ∀ m, ReflTransGen Goes (besideRun (Build.unforked 0 [suspending])) m →
      ¬ ReachesFork m := by
    rintro m hgo ⟨a, q, i, x, k, hfocus⟩
    have hm := forall_reached (P := fun m => m.splits = false) hstop hsplits m hgo
    rw [splits, hfocus] at hm
    cases hm
  obtain ⟨hends, hback⟩ := hruns [("c", .composer 0)] besideSteps _ (.run (.composer 0) 0)
    unobtrusive_suspending hplain
  -- from its end on no branch goes on
  have hover : ∃ k, ∀ n ≥ k, ¬ BranchGoes 1 (besideRun (Build.fork 0 [suspending]))
      (run n (besideRun (Build.fork 0 [suspending]))) := by
    refine ⟨33, fun n hn => ?_⟩
    obtain ⟨i, rfl⟩ := Nat.exists_eq_add_of_le hn
    rw [run_add_of_stopped (m := besideRun (Build.fork 0 [suspending])) rfl]
    rintro (⟨b, p, hfocus, -⟩ | ⟨-, t, rest, hready, -⟩)
    · cases hfocus
    · cases hready
  have hplainEnd : EndsWith (besideRun (Build.unforked 0 [suspending]))
      (run 30 (besideRun (Build.unforked 0 [suspending]))).world none :=
    ⟨30, .ok .null, rfl, rfl, rfl, rfl⟩
  obtain ⟨u, hend⟩ := hback _ none hplainEnd hover
  have hforkEnd : EndsWith (besideRun (Build.fork 0 [suspending]))
      (run 33 (besideRun (Build.fork 0 [suspending]))).world none :=
    ⟨33, .ok .null, rfl, rfl, rfl, rfl⟩
  obtain ⟨rfl, -⟩ := hforkEnd.unique hend
  obtain ⟨u', es, ns, hend', -, hnotes, hevents, -⟩ := hends _ none hend
  obtain ⟨rfl, -⟩ := hplainEnd.unique hend'
  obtain rfl : es = _ := (hevents.trans (List.nil_append es)).symm
  exact ⟨_, _, ns, hend, hend', rfl, rfl, hnotes⟩

/-- A run of a composer for the context after steps of registration. -/
def runAfter (steps : List Step) (id : Nat) : Machine :=
  ofRoots (World.after steps { client := none, me := default, contexts := [default] })
    [(Link.composer id).run 0]

/-- A composer with a function that calls its continuation twice. -/
def createRepeating : Step :=
  .create (some "r") [.script [.next, .next, .note (.str "end")] false]

/-- Two composers, the second of which has a fork that adds a function to the first one. -/
def createAdding : List Step :=
  [.create (some "c") [], .create (some "r") [],
    .register "r" none (.fork
      [.script [.step (.register "c" none (.use [.script [.note (.str "late")] false]))] false])]

/-- A function that suspends, and the first of the two composers, at the end of the second one. -/
def useSuspending : Step := .register "r" none (.use [.script [.pause 1, .next] false, .named "c"])

/-- Not every fork goes unnoticed. A link that is the last one of its chain may call its
continuation twice, but not if a fork follows, even if it only passes. And while it runs, a branch
may register a function that the rest of the chain comes to. -/
theorem forks_are_noticed :
    (∃ u, EndsWith (runAfter [createRepeating] 0) u none ∧ u.events = [.note (.str "end")]) ∧
    (∃ u, EndsWith (runAfter [createRepeating, .register "r" none (.fork [.pass])] 0) u
      (some .nextCalledTwice) ∧ u.events = []) ∧
    (∃ u, EndsWith (runAfter (createAdding.take 2 ++ [useSuspending]) 1) u none ∧ u.events = []) ∧
    ∃ u, EndsWith (runAfter (createAdding ++ [useSuspending]) 1) u none ∧
      u.events = [.note (.str "late")] :=
  ⟨⟨_, ⟨10, .ok .null, rfl, rfl, rfl, rfl⟩, rfl⟩,
    ⟨_, ⟨30, .error .nextCalledTwice, rfl, rfl, rfl, rfl⟩, rfl⟩,
    ⟨_, ⟨30, .ok .null, rfl, rfl, rfl, rfl⟩, rfl⟩,
    ⟨_, ⟨50, .ok .null, by cbv, rfl, by cbv, rfl⟩, by cbv⟩⟩

end Machine

end UpdateDispatch
