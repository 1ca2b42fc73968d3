import UpdateDispatch.Proofs.Dispatch.Endings
import UpdateDispatch.Proofs.Dispatch.Quiescence

/-!
# Runs with a single root

If a machine is started with one process, then whatever else has something to do was started by that
one (`Machine.OneRoot`). So while the root runs, nobody else has a turn, and when it ends the run is
over (`Machine.step_eq_none_of_root`). A run does not stop before that
(`Machine.exists_root_of_stopped`).
-/

namespace UpdateDispatch

open Relation

namespace Machine

open Process

variable {m m' : Machine} {a : Owner} {p : Process} {o : Outcome}

/-- A run of the program is a run in one of the orders of turns. -/
theorem nexts_of_goes (h : ReflTransGen Goes m m') : ReflTransGen Next m m' :=
  ReflTransGen.mono (fun _ _ => next_of_step) _ _ h

/-! ## What the root has started -/

/-- Whoever has something to do was started by the first root. -/
structure OneRoot (m : Machine) : Prop where
  focus : ∀ {b p}, m.focus = some (b, p) → Below 0 m (.root 0) b
  ready : ∀ t ∈ m.ready, Below 0 m (.root 0) t.owner

theorem oneRoot_ofRoots (w : World) (p : Process) : OneRoot (ofRoots w [p]) where
  focus := nofun
  ready t ht := by
    obtain rfl : t = .resume (.root 0) p := by simpa [ofRoots] using ht
    exact .self

theorem OneRoot.finish (h : OneRoot m) (hnext : Next m (m.finish a o))
    (hfocus : m.focus = some (a, p)) : OneRoot (m.finish a o) := by
  have hself := h.focus hfocus
  cases a with
  | root i => exact ⟨nofun, fun t ht => (h.ready t ht).next hnext⟩
  | side j left =>
    exact ⟨nofun, List.forall_mem_append.mpr ⟨fun t ht => (h.ready t ht).next hnext,
      List.forall_mem_singleton.mpr (hself.next hnext)⟩⟩
  | shared t => cases hself

theorem OneRoot.advance (h : OneRoot m) (hm : Reachable m) (hfocus : m.focus = some (a, p)) :
    OneRoot (m.advance a p) := by
  have hnext : Next m (m.advance a p) := .advance hfocus
  have hself := (h.focus hfocus).next hnext
  have hready : ∀ t ∈ m.ready, Below 0 (m.advance a p) (.root 0) t.owner :=
    fun t ht => (h.ready t ht).next hnext
  cases p with
  | value v => exact h.finish hnext hfocus
  | raised f => exact h.finish hnext hfocus
  | pause p =>
    exact ⟨nofun, List.forall_mem_append.mpr ⟨hready, List.forall_mem_singleton.mpr hself⟩⟩
  | both l r k =>
    have hjoin : (m.advance a (.both l r k)).joins[m.joins.length]? = some ⟨a, k, none⟩ :=
      List.getElem?_concat_length
    have hside : ∀ left, Below 0 (m.advance a (.both l r k)) (.root 0)
        (.side m.joins.length left) := fun left => .side left (Nat.zero_le _) hjoin hself
    exact ⟨nofun, List.forall_mem_append.mpr ⟨hready,
      List.forall_mem_cons.mpr ⟨hside true, List.forall_mem_singleton.mpr (hside false)⟩⟩⟩
  | start p k => exact (hm.sound hfocus).elim fun _ hsound => hsound.elim
  | await t k => exact absurd hfocus (hm.not_await a t k)
  | _ => exact ⟨by rintro _ _ ⟨⟩; exact hself, hready⟩

/-- A process that is told of its second side was started by the first root, as the side was. -/
theorem OneRoot.settle {before after : List Turn} {j : Nat} {left : Bool} (h : OneRoot m)
    (hfocus : m.focus = none) (hready : m.ready = before ++ .settled j left o :: after) :
    OneRoot (Machine.settle j left o { m with ready := before ++ after }) := by
  have hnext : Next m (Machine.settle j left o { m with ready := before ++ after }) :=
    .turn hfocus hready
  have hturns := hready ▸ h.ready
  rw [List.forall_mem_append, List.forall_mem_cons] at hturns
  obtain ⟨hbefore, hturn, hafter⟩ := hturns
  have hothers : ∀ t ∈ before ++ after, Below 0 m (.root 0) t.owner :=
    List.forall_mem_append.mpr ⟨hbefore, hafter⟩
  unfold Machine.settle at hnext ⊢
  dsimp only at hnext ⊢
  split at hnext
  · exact ⟨by simp [hfocus], fun t ht => (hothers t ht).next hnext⟩
  · next J hJ =>
    split at hnext
    · exact ⟨by simp [hfocus], fun t ht => (hothers t ht).next hnext⟩
    · refine ⟨by simp [hfocus, queue], List.forall_mem_append.mpr
        ⟨fun t ht => (hothers t ht).next hnext, List.forall_mem_singleton.mpr ?_⟩⟩
      cases hturn with
      | side _ _ hJ' howner =>
        rw [hJ] at hJ'
        cases hJ'
        exact howner.next hnext

theorem OneRoot.next (h : OneRoot m) (hm : Reachable m) (hnext : Next m m') : OneRoot m' := by
  cases hnext with
  | advance hfocus => exact h.advance hm hfocus
  | @turn before after t hfocus hready =>
    cases t with
    | settled j left o => exact h.settle hfocus hready
    | resume b p =>
      have hbelow : ∀ {t}, t ∈ m.ready → Below 0 _ (.root 0) t.owner :=
        fun ht => (h.ready _ ht).next (.turn hfocus hready)
      refine ⟨?_, fun t ht => hbelow ?_⟩
      · rintro _ _ ⟨⟩
        exact hbelow (t := .resume b p) (by simp [hready])
      · rw [hready]
        exact List.mem_append.mpr ((List.mem_append.mp ht).imp_right (List.mem_cons_of_mem _))

theorem OneRoot.of_reaches (h : OneRoot m) (hm : Reachable m) (hrun : ReflTransGen Next m m') :
    OneRoot m' := by
  induction hrun with
  | refl => exact h
  | tail hrun hnext ih => exact ih.next (hm.of_reaches hrun) hnext

/-- While the only root runs, nobody else has anything to do. -/
theorem OneRoot.ready_eq_nil (h : OneRoot m) (hm : Reachable m)
    (hfocus : m.focus = some (.root 0, p)) : m.ready = [] := by
  refine List.eq_nil_iff_forall_not_mem.mpr fun t ht => ?_
  obtain ⟨place, huniform⟩ := hm.uniform
  have hne := huniform.placed.ne_of_queued hfocus ht
  exact hm.not_unfinished hfocus (h.ready t ht) hne .refl (.turn ht)

theorem roots_length (hm : Reachable m) (hnext : Next m m') : m'.roots.length = m.roots.length := by
  rcases hnext.roots hm.not_await with heq | ⟨i, p, o, -, -, heq⟩
  · rw [heq]
  · rw [heq, List.length_set]

/-- A root that runs has no outcome yet, unless it is about to have one. -/
theorem roots_of_running {w : World} {p₀ : Process} (hp₀ : Dispatches p₀)
    (hrun : ReflTransGen Next (ofRoots w [p₀]) m) (hfocus : m.focus = some (.root 0, p))
    (hp : ∀ o, ¬ Ended p o) : m.roots = [none] := by
  have hps : ∀ p ∈ [p₀], Dispatches p := by simpa using hp₀
  have hstart : Reachable (ofRoots w [p₀]) := ⟨w, [p₀], hps, .refl⟩
  have hlength : m.roots.length = 1 := by
    clear hfocus
    induction hrun with
    | refl => rfl
    | tail hrun hnext ih => exact (roots_length (hstart.of_reaches hrun) hnext).trans ih
  obtain ⟨r, hr⟩ := List.length_eq_one_iff.mp hlength
  cases r with
  | none => exact hr
  | some o =>
    have hroot : m.roots[0]? = some (some o) := by simp [hr]
    obtain ⟨e, q, he, hem, hq, hended⟩ := exists_end_of_root hps hrun hroot
    have hleads := (hstart.of_reaches he).leads (.inl hq) hem hfocus
    rw [eq_of_leads_ended hended hleads] at hp
    exact absurd hended (hp o)

theorem OneRoot.root_eq (h : OneRoot m) {i : Nat} (hfocus : m.focus = some (.root i, p)) :
    i = 0 := by
  cases h.focus hfocus
  rfl

/-! ## A root that runs alone -/

/-- The only root runs `p`, and nobody else has anything to do. -/
structure Solo (m : Machine) (p : Process) : Prop where
  focus : m.focus = some (.root 0, p)
  ready : m.ready = []
  roots : m.roots = [none]

/-- The end of the only root is the end of the run. -/
theorem run_of_ended {o : Outcome} {i : Nat} (hfocus : m.focus = some (.root i, p))
    (hready : m.ready = []) (hp : Ended p o) (k : Nat) : run (k + 1) m = m.finish (.root i) o := by
  have hstep : m.step = some (m.finish (.root i) o) := by
    rw [step_of_focus hfocus]
    cases hp <;> rfl
  have hstopped : (m.finish (.root i) o).step = none := by
    simp [Machine.step, Machine.finish, Machine.idle, hready]
  rw [run_of_goes hstep, run_of_stopped hstopped]

/-- Once the only root has its outcome, the run has come to its end. -/
theorem step_eq_none_of_root {w : World} {p₀ : Process} (hp₀ : Dispatches p₀) {n : Nat}
    (h : (run n (ofRoots w [p₀])).roots[0]? = some (some o)) :
    (run n (ofRoots w [p₀])).step = none := by
  have hps : ∀ p ∈ [p₀], Dispatches p := by simpa using hp₀
  have hstart : Reachable (ofRoots w [p₀]) := ⟨w, [p₀], hps, .refl⟩
  induction n with
  | zero => cases h
  | succ n ih =>
    have hm := hstart.of_reaches (reaches_run n _)
    have hone := (oneRoot_ofRoots w p₀).of_reaches hstart (reaches_run n _)
    rw [run_add] at h ⊢
    generalize run n (ofRoots w [p₀]) = m at h ih hm hone ⊢
    rcases hstep : m.step with _ | m'
    · rwa [run_of_stopped hstep]
    · rw [run_of_goes hstep, run] at h ⊢
      rcases (next_of_step hstep).roots hm.not_await with heq | ⟨i, p, o', hfocus, hended, -⟩
      · rw [ih (heq ▸ h)] at hstep
        cases hstep
      · -- the root has ended in this very step, and nobody else had anything to do
        obtain rfl := hone.root_eq hfocus
        have hready := hone.ready_eq_nil hm hfocus
        rw [step_of_focus hfocus] at hstep
        cases hended <;> cases hstep <;>
          simp [Machine.step, Machine.advance, Machine.finish, Machine.idle, hready]

/-! ## Nobody waits for ever -/

/-- Whatever a dispatcher is asked to do, the root has ended or goes on. -/
theorem answered_of_reaches {w : World} {p₀ : Process} (hp₀ : Dispatches p₀)
    (hrun : ReflTransGen Goes (ofRoots w [p₀]) m) : Answered m := by
  have hstart : Reachable (ofRoots w [p₀]) := ⟨w, [p₀], by simpa using hp₀, .refl⟩
  induction hrun with
  | refl => exact .inr ⟨rfl, .queued (p := p₀) List.mem_cons_self⟩
  | @tail m m' hrun hgo ih =>
    replace hrun := nexts_of_goes hrun
    have hm := hstart.of_reaches hrun
    have hone := (oneRoot_ofRoots w p₀).of_reaches hstart hrun
    rcases hfocus : m.focus with _ | ⟨b, p⟩
    · rcases hready : m.ready with _ | ⟨t, rest⟩
      · rw [Goes, step, hfocus, hready] at hgo
        cases hgo
      · have htake := ih.take hfocus hready
        rw [Goes, step, hfocus, hready] at hgo
        cases t <;> cases hgo <;> simpa [Machine.take, focusOn, hfocus] using htake
    · rw [Goes, step_of_focus hfocus] at hgo
      cases hgo
      have hunshared : Unshared p := by
        refine ⟨?_, ?_⟩
        · rintro q k rfl
          exact (hm.sound hfocus).elim fun _ hsound => hsound.elim
        · rintro t k rfl
          exact hm.not_await b t k hfocus
      refine ih.advance hfocus hunshared ?_ ?_
      · rintro i rfl
        exact hone.root_eq hfocus
      · rintro task rfl
        cases hone.focus hfocus

/-- A run that has stopped has come to its end. -/
theorem exists_root_of_stopped {w : World} {p₀ : Process} (hp₀ : Dispatches p₀)
    (hrun : ReflTransGen Goes (ofRoots w [p₀]) m) (hstep : m.step = none) :
    ∃ o, m.roots = [some o] := by
  rcases answered_of_reaches hp₀ hrun with hroots | ⟨-, halive⟩
  · exact hroots
  · exact absurd hstep halive.step_ne_none

end Machine

end UpdateDispatch
