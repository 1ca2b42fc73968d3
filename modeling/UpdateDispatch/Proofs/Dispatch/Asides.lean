import UpdateDispatch.Proofs.Dispatch.Abreast
import UpdateDispatch.Proofs.Dispatch.Timelines

/-!
# What goes on beside the rest

A step of a branch, or a turn that does not carry the rest on, leaves the rest where it is
(`Resting.step_branch`, `Resting.loose`). The one exception is the turn that tells the join for
which the rest waits that its second side has ended: then the rest has a turn again, and the lone
process goes on with what follows (`Resting.pop`).
-/

namespace UpdateDispatch

open Relation

namespace Machine

open Process

variable {side : Nat} {m₀ m m' : Machine} {N : Numbers} {j i : Nat} {a b : Owner}
  {p q : Process} {ws extra : List Wait} {ts new : List Turn} {t : Turn} {V : Variants} {v : World}
  {K L : Outcome → Process} {s : Lone} {o : Outcome}

/-! ## The rest stays where it is -/

/-- Joins of others may change. -/
theorem RestTurns.joins (h : RestTurns V side m₀ N ws a K m s extra ts)
    (hjoins : ∀ {i J}, m.joins[i]? = some J → J.owner = a → (∀ w ∈ ws, w.1 ≠ i) →
      m'.joins[i]? = some J) : RestTurns V side m₀ N ws a K m' s extra ts := by
  cases h with
  | queued hp hs => exact .queued hp hs
  | telling ha hs => exact .telling ha hs
  | told hJ howner hfirst hnew hnext =>
    exact .told (hjoins hJ howner hnew) howner hfirst hnew hnext
  | racing hj hJ howner hfirst hnew hnext hq hk hs =>
    exact .racing hj (hjoins hJ howner hnew) howner hfirst hnew hnext hq hk hs

theorem Rest.exists_placed (h : Rest V side m₀ v N ws a K m s) (hm₀ : Reachable m₀) :
    ∃ place, Placed m place := by
  obtain ⟨place, huniform⟩ := (hm₀.of_reaches (nexts_of_goes h.reaches)).uniform
  exact ⟨place, huniform.placed⟩

section Branch

variable {joins : List Join}

/-- A branch takes a step, and leaves what it has begun to others. -/
theorem Resting.beside (h : Resting V side m₀ v N ws a K extra ts m s)
    (hfocus : m.focus = some (b, p)) (hruns : BranchRuns side m₀ N m (extra ++ ws) b p j)
    (hgo : Goes m m') (hon : Onward m N m' N) (hroots : m'.roots = m.roots)
    (hworld : V.Shows N m'.world s.world) (hguards : Flags N.guards m'.guards s.guards)
    (hjoins : m'.joins = m.joins ++ joins) (hready : m'.ready = m.ready ++ new)
    (hnew : ∀ t ∈ new, Loose side m₀ N m' (extra ++ ws) t)
    (hfocus' : ∀ {b p}, m'.focus = some (b, p) →
      ∃ j, BranchRuns side m₀ N m' (extra ++ ws) b p j) :
    Resting V side m₀ v N ws a K extra ts m' s := by
  have hkept : ∀ {i J}, m.joins[i]? = some J → m'.joins[i]? = some J := fun hJ => by
    rw [hjoins, List.getElem?_append_left (List.getElem?_eq_some_iff.mp hJ).1, hJ]
  exact
    { noted := h.noted.branch hgo hfocus (hruns.owner.inBranch hruns.branch)
      reaches := h.reaches.tail hgo
      roots := hroots.trans h.roots
      world := hworld
      guards := hguards
      waits := waits_joins h.waits fun w _ J hJ => ⟨J, hkept hJ, rfl, rfl, fun _ _ => .inl⟩
      focus := hfocus'
      ready := hready ▸ h.ready.onward hon hnew
      turns := h.turns.joins fun hJ _ _ => hkept hJ }

/-- A branch goes on. -/
theorem Resting.branch_runs {w : World} {guards : List Bool}
    (h : Resting V side m₀ v N ws a K extra ts m s) (hfocus : m.focus = some (b, p))
    (hruns : BranchRuns side m₀ N m (extra ++ ws) b p j)
    (hgo : Goes m { m with world := w, guards := guards, focus := some (b, q) })
    (hstep : Runs m.guards.length m.world p guards.length w q) (hworld : V.Shows N w s.world)
    (hguards : Flags N.guards guards s.guards) :
    Resting V side m₀ v N ws a K extra ts
      { m with world := w, guards := guards, focus := some (b, q) } s := by
  obtain ⟨hq, hmarks⟩ := (Trait.upheld_keepsOff N hruns.keeps).runs hstep
  have hon : Onward m N { m with world := w, guards := guards, focus := some (b, q) } N :=
    { toWithin := .refl N, goes := .single hgo, newGuards := .inl, newMarks := .inl
      marks_le := hmarks }
  refine h.beside hfocus hruns hgo hon rfl hworld hguards (List.append_nil _).symm
    (List.append_nil _).symm (List.forall_mem_nil _) ?_
  rintro _ _ ⟨⟩
  exact ⟨j, hruns.branch, hruns.wait, hruns.owner.onward hon, hq⟩

/-- A branch gives up its turn. -/
theorem Resting.branch_queue (h : Resting V side m₀ v N ws a K extra ts m s)
    (hfocus : m.focus = some (b, p)) (hruns : BranchRuns side m₀ N m (extra ++ ws) b p j)
    (hgo : Goes m (m.idle.queue t)) (ht : LooseAt side m₀ N m (j, none) t) :
    Resting V side m₀ v N ws a K extra ts (m.idle.queue t) s := by
  have hon : Onward m N (m.idle.queue t) N := .of_marks (.single hgo) rfl
  exact h.beside hfocus hruns hgo hon rfl h.world h.guards (List.append_nil _).symm rfl
    (List.forall_mem_singleton.mpr ⟨_, hruns.wait, ht.onward hon⟩) nofun

/-- A branch, or what it has begun, has ended. -/
theorem Resting.branch_ends (hside : Unobtrusive side m₀)
    (h : Resting V side m₀ v N ws a K extra ts m s) (hfocus : m.focus = some (b, ended o))
    (hruns : BranchRuns side m₀ N m (extra ++ ws) b (ended o) j) (hgo : Goes m (m.finish b o)) :
    Resting V side m₀ v N ws a K extra ts (m.finish b o) s := by
  have howner := hruns.owner
  cases howner with
  | branch =>
    have hnone : Outcome.fault? o = none := by
      rcases o with f | u
      · exact absurd hfocus (hside.succeeds h.reaches hruns.branch)
      · rfl
    have ht : LooseAt side m₀ N m (j, none) (.settled j false o) := hnone ▸ .told
    exact h.branch_queue hfocus hruns hgo ht
  | side left hJ hnext howner =>
    exact h.branch_queue hfocus hruns hgo (.tells hruns.branch hJ hnext howner)

/-- A branch starts two sides. -/
theorem Resting.branch_splits {l r : Process} {k : Settled → Process}
    (h : Resting V side m₀ v N ws a K extra ts m s) (hfocus : m.focus = some (b, .both l r k))
    (hruns : BranchRuns side m₀ N m (extra ++ ws) b (.both l r k) j)
    (hgo : Goes m (m.split b l r k)) (hne : ∀ left, b ≠ .side m.joins.length left) :
    Resting V side m₀ v N ws a K extra ts (m.split b l r k) s := by
  have hleaves := Trait.upheld_keepsOff N hruns.keeps
  have hon : Onward m N (m.split b l r k) N := .of_marks (.single hgo) rfl
  have hJ : (m.split b l r k).joins[m.joins.length]? = some ⟨b, k, none⟩ :=
    List.getElem?_concat_length
  have hunder : ∀ left, Under N (m.split b l r k) j (.side m.joins.length left) := fun left =>
    .side left hJ (fun e => hon.keepsOff (hleaves.parks hne (.join e))) (hruns.owner.onward hon)
  have hgoes : ∀ left q, Parks m.joins.length b (.both l r k) (.side m.joins.length left) q →
      Loose side m₀ N (m.split b l r k) (extra ++ ws) (.resume (.side m.joins.length left) q) :=
    fun left q hparks => ⟨_, hruns.wait, .goes hruns.branch (hunder left)
      (hon.keepsOff (hleaves.sides hne hparks))⟩
  refine h.beside hfocus hruns hgo hon rfl h.world h.guards rfl rfl (fun t ht => ?_) nofun
  rcases List.mem_pair.mp ht with rfl | rfl
  · exact hgoes true l .left
  · exact hgoes false r .right

/-- A step of a branch. -/
theorem Resting.step_branch (hm₀ : Reachable m₀) (hside : Unobtrusive side m₀)
    (h : Resting V side m₀ v N ws a K extra ts m s) (hfocus : m.focus = some (b, p)) :
    ∃ m₁, Goes m m₁ ∧ Resting V side m₀ v N ws a K extra ts m₁ s := by
  obtain ⟨j, hruns⟩ := h.focus hfocus
  have hgo : Goes m (m.advance b p) := step_of_focus hfocus
  have hkeeps := hside.keeps h.reaches hfocus (hruns.owner.inBranch hruns.branch)
  obtain ⟨place, hplaced⟩ := h.exists_placed hm₀
  have hne := hplaced.ne_unborn hfocus
  refine ⟨_, hgo, ?_⟩
  cases p with
  | value u => exact h.branch_ends hside (o := .ok u) hfocus hruns hgo
  | raised f => exact h.branch_ends hside (o := .error f) hfocus hruns hgo
  | deferred q => exact h.branch_runs hfocus hruns hgo .deferred h.world h.guards
  | read k => exact h.branch_runs hfocus hruns hgo .read h.world h.guards
  | write f q =>
    refine h.branch_runs hfocus hruns hgo .write ?_ h.guards
    obtain ⟨events, notices, marks, heq⟩ := hkeeps
    replace heq : f m.world = { m.world with events, notices, marks } := heq
    have hmarks : Flags N.marks (f m.world).marks s.world.marks := h.world.marks.left fun hi =>
      Trait.marks_of_keepsOff hruns.keeps hi
    rw [heq] at hmarks ⊢
    exact
      { stores := { h.world.stores with }
        client := h.world.client
        contexts := h.world.contexts
        marks := hmarks }
  | newGuard k =>
    refine h.branch_runs hfocus hruns hgo (by simpa using .newGuard) h.world ?_
    exact h.guards.left fun hi => List.getElem?_append_left (h.guards.lt hi).1
  | checkGuard i k => exact h.branch_runs hfocus hruns hgo (.checkGuard _) h.world h.guards
  | useGuard i q =>
    refine h.branch_runs hfocus hruns hgo (by simpa using .useGuard) h.world ?_
    exact h.guards.left fun hi => List.getElem?_set_ne (Trait.ne_of_keepsOff hruns.keeps hi)
  | pause q =>
    have hq := (Trait.upheld_keepsOff N hruns.keeps).parks hne .pause
    exact h.branch_queue hfocus hruns hgo (.goes hruns.branch hruns.owner hq)
  | both l r k => exact h.branch_splits hfocus hruns hgo hne
  | start q k => exact absurd rfl (Trait.upheld_keepsOff N hruns.keeps).starts
  | await t k =>
    obtain ⟨M, -, hp⟩ := hruns.keeps
    cases hp
  | enter l x next k => exact h.branch_runs hfocus hruns hgo .enter h.world h.guards

end Branch

/-! ## Turns of others -/

/-- Those that are waited for on the way belong to owners on the way. -/
theorem exists_waits {Js : List Join} {g : List Bool} {w : Wait} {J : Join}
    (h : V.Waits N Js g ws a K) (hw : w ∈ ws) (hJ : Js[w.1]? = some J) :
    (∃ ws' K', V.Waits N Js g ws' J.owner K') ∧
      ∀ left o, J.first = some (left, o) → left = false ∧ Outcome.fault? o = w.2 := by
  induction h with
  | root => cases hw
  | @side ws a K _ _ I _ h hI howner hfirst _ _ ih =>
    rcases List.mem_cons.mp hw with rfl | hw
    · rw [hI] at hJ
      cases hJ
      exact ⟨⟨ws, K, howner ▸ h⟩, hfirst⟩
    · exact ih hw

/-- A join stands on the way once. -/
theorem eq_of_waits {Js : List Join} {g : List Bool} {w w' : Wait} (h : V.Waits N Js g ws a K)
    (hw : w ∈ ws) (hw' : w' ∈ ws) (heq : w.1 = w'.1) : w = w' := by
  induction h with
  | root => cases hw
  | side _ _ _ _ hnew _ ih =>
    rcases List.mem_cons.mp hw with rfl | hw <;> rcases List.mem_cons.mp hw' with rfl | hw'
    · rfl
    · exact absurd heq.symm (hnew _ hw')
    · exact absurd heq (hnew _ hw)
    · exact ih hw hw'

theorem Among.loose {ready : List Turn} (h : Among side m₀ N m ws [] ready) :
    ∀ t ∈ ready, Loose side m₀ N m ws t := by
  obtain ⟨before, after, rfl, hloose⟩ := h
  exact hloose

section Pop

variable {J : Join} {left : Bool} {o' : Outcome} {other : Option Fault} {rest : List Turn}

/-- The machine after the join `j` has been told of the side that ends first. -/
def hearing (rest : List Turn) (j : Nat) (J : Join) (left : Bool) (o : Outcome) (m : Machine) :
    Machine :=
  { m with ready := rest, joins := m.joins.set j { J with first := some (left, o) } }

theorem goes_hearing (hfocus : m.focus = none) (hready : m.ready = .settled j left o :: rest)
    (hJ : m.joins[j]? = some J) (hfirst : J.first = none) :
    Goes m (m.hearing rest j J left o) := by
  rw [Goes, step_of_ready hfocus hready]
  simp only [take, settle, hJ, hfirst, hearing]

theorem goes_rejoined (hfocus : m.focus = none) (hready : m.ready = .settled j left o :: rest)
    (hJ : m.joins[j]? = some J) {left' : Bool} (hfirst : J.first = some (left', o')) :
    Goes m (m.rejoined rest J (pair left' o' o)) := by
  rw [Goes, step_of_ready hfocus hready]
  simp only [take, settle, hJ, hfirst, rejoined]

/-- Both sides of the join at which the rest waits have ended. The rest has a turn to go on, and the
lone process goes on as well. -/
theorem Rest.pop (hm₀ : Reachable m₀) (h : Rest V side m₀ v N ws a K m s) (hfocus : m.focus = none)
    (hready : m.ready = .settled j left o :: rest) (hJ : m.joins[j]? = some J)
    (howner : J.owner = a) (hfirst : J.first = some (!left, o'))
    (hreturns : V.Returns N s.guards (J.next (pair (!left) o' o)) s.process K)
    (hloose : ∀ t ∈ rest, Loose side m₀ N m ((j, other) :: ws) t) :
    ∃ m₁ s₁, Goes m m₁ ∧ ReflTransGen Lone.Goes s s₁ ∧
      Resting V side m₀ v N ws a K [] [.resume a (J.next (pair (!left) o' o))] m₁ s₁ := by
  obtain ⟨place, hplaced⟩ := h.exists_placed hm₀
  obtain ⟨p', hp, hgoes⟩ := hreturns
  have hgo := goes_rejoined hfocus hready hJ hfirst
  have hon : Onward m N (m.rejoined rest J (pair (!left) o' o)) N := .of_marks (.single hgo) rfl
  refine ⟨_, ⟨s.guards, s.world, p'.andThen K⟩, hgo, hgoes s.guards s.world (.of_eq rfl), ?_⟩
  exact
    { toRest := (h.quiet hgo rfl rfl rfl h.waits).alone rfl
      focus := elim_of_idle hfocus
      ready := by
        refine ⟨rest, [], by rw [rejoined, queue, howner]; rfl, fun t ht => ?_⟩
        rw [List.append_nil] at ht
        refine ((hloose t ht).tail ?_).onward hon
        exact hplaced.not_below_of_settled (hready.trans (List.nil_append _).symm) hJ hfirst ht
      turns := .queued hp rfl }

/-- A join that the rest does not wait for now is told of a side. -/
theorem Resting.told (h : Resting V side m₀ v N ws a K extra ts m s) (hfocus : m.focus = none)
    (hready : m.ready = .settled i left o :: rest) (hrest : Among side m₀ N m (extra ++ ws) ts rest)
    (hJ : m.joins[i]? = some J) (hfirst : J.first = none)
    (hon : ∀ w ∈ ws, w.1 = i → left = false ∧ Outcome.fault? o = w.2)
    (hoff : J.owner = a → ∃ w ∈ ws, w.1 = i) :
    ∃ m₁, Goes m m₁ ∧ m₁.focus = none ∧ m₁.ready = rest ∧
      Resting V side m₀ v N ws a K extra ts m₁ s := by
  have hgo := goes_hearing hfocus hready hJ hfirst
  have honward : Onward m N (m.hearing rest i J left o) N := .of_marks (.single hgo) rfl
  have hlt : i < m.joins.length := (List.getElem?_eq_some_iff.mp hJ).1
  refine ⟨_, hgo, hfocus, rfl, ?_⟩
  have hwaits : V.Waits N (m.hearing rest i J left o).joins s.guards ws a K := by
    refine waits_joins h.waits fun w hw I hI => ?_
    by_cases heq : i = w.1
    · obtain rfl := heq
      rw [hJ] at hI
      cases hI
      refine ⟨_, List.getElem?_set_self hlt, rfl, rfl, ?_⟩
      rintro _ _ ⟨⟩
      exact .inr (hon w hw rfl)
    · exact ⟨I, (List.getElem?_set_ne heq).trans hI, rfl, rfl, fun _ _ => .inl⟩
  exact
    { toRest := h.toRest.quiet hgo rfl rfl rfl hwaits
      focus := elim_of_idle hfocus
      ready := hrest.later honward
      turns := h.turns.joins fun {i' I} hI howner hnew => by
        have hne : i ≠ i' := by
          rintro rfl
          rw [hJ] at hI
          cases hI
          obtain ⟨w, hw, heq⟩ := hoff howner
          exact hnew w hw heq
        exact (List.getElem?_set_ne hne).trans hI }

end Pop

/-! ## What ends at once -/

/-- A process that ends in its turn, with `o` and in the state `u`, if the guards are `g`: all it
does is to look at guards and to set marks. -/
inductive Prompt (g : List Bool) : World → Process → World → Outcome → Prop
  | ended {w : World} (o : Outcome) : Prompt g w (ended o) w o
  | deferred {w u : World} {p : Process} {o : Outcome} (h : Prompt g w p u o) :
      Prompt g w (.deferred p) u o
  | setMark {w u : World} {p : Process} {o : Outcome} {i : Nat}
      (h : Prompt g (w.setMark i true) p u o) : Prompt g w (.write (World.setMark i true) p) u o
  | checkGuard {w u : World} {k : Bool → Process} {o : Outcome} {i : Nat}
      (h : Prompt g w (k (g[i]?.getD false)) u o) : Prompt g w (.checkGuard i k) u o

/-- The machine in another state, where a side of a join has just ended and `rest` is queued. -/
def reporting (rest : List Turn) (u : World) (t : Turn) (m : Machine) : Machine :=
  { m with world := u, focus := none, ready := rest ++ [t] }

section Prompt

variable {g g' : List Bool} {w w' u : World} {left : Bool} {rest : List Turn} {q' : Process}

theorem prompt_once (hi : g[i]?.getD false = true) (p : Process) :
    Prompt g w (once i p) w (.error .nextCalledTwice) := by
  refine .checkGuard ?_
  rw [hi]
  exact .ended (.error .nextCalledTwice)

theorem Prompt.noted (h : Prompt g w p u o) :
    u.events = w.events ∧ u.notices = w.notices ∧ u.marks.length = w.marks.length := by
  induction h with
  | ended => exact ⟨rfl, rfl, rfl⟩
  | deferred _ ih | checkGuard _ ih => exact ih
  | setMark _ ih =>
    obtain ⟨hevents, hnotices, hmarks⟩ := ih
    exact ⟨hevents, hnotices, hmarks.trans List.length_set⟩

theorem Prompt.lone (h : Prompt g w p u o) (K : Outcome → Process) :
    ReflTransGen Lone.Goes ⟨g, w, p.andThen K⟩ ⟨g, u, K o⟩ := by
  induction h with
  | ended o => cases o <;> exact .refl
  | deferred _ ih => exact ih
  | setMark _ ih => exact .head .write ih
  | checkGuard _ ih => exact .head .checkGuard ih

theorem Prompt.finishes (h : Prompt g w p u o) {m : Machine} (hg : m.guards = g)
    (hw : m.world = w) (hfocus : m.focus = some (.side j left, p)) :
    TransGen Silent m (m.reporting m.ready u (.settled j left o)) := by
  induction h generalizing m with
  | ended o =>
    refine .single ⟨?_, by rw [← hw]; rfl, by rw [← hw]; rfl⟩
    rw [Goes, step_of_focus hfocus, ← hw]
    cases o <;> rfl
  | @deferred _ _ p _ _ ih =>
    have hgo : Goes m (m.focusOn (.side j left) p) := step_of_focus hfocus
    exact .head ⟨hgo, rfl, rfl⟩ (ih hg hw rfl)
  | @setMark w _ p _ i _ ih =>
    have hgo : Goes m { m with world := m.world.setMark i true, focus := some (.side j left, p) } :=
      step_of_focus hfocus
    exact .head ⟨hgo, rfl, rfl⟩ (ih hg (congrArg (World.setMark i true) hw) rfl)
  | @checkGuard _ _ k _ i _ ih =>
    have hgo : Goes m (m.focusOn (.side j left) (k (g[i]?.getD false))) := by
      rw [Goes, step_of_focus hfocus, ← hg]
      rfl
    exact .head ⟨hgo, rfl, rfl⟩ (ih hg hw rfl)

/-- A side of a join has its turn, and ends in it. -/
theorem Prompt.goes (h : Prompt m.guards m.world p u o) (hfocus : m.focus = none)
    (hready : m.ready = .resume (.side j left) p :: rest) :
    TransGen Silent m (m.reporting rest u (.settled j left o)) := by
  have hgo : Goes m { m with ready := rest, focus := some (.side j left, p) } :=
    step_of_ready hfocus hready
  exact .head ⟨hgo, rfl, rfl⟩ (h.finishes rfl rfl rfl)

/-- A side of a join has ended at once, beside what the lone process has done. -/
theorem Rest.reports {ws' : List Wait} {t : Turn} (h : Rest V side m₀ v N ws a K m s)
    (hgo : TransGen Silent m (m.reporting rest u t)) (hw : V.Shows N u w)
    (hevents : w.events = s.world.events) (hnotices : w.notices = s.world.notices)
    (hwaits : V.Waits N m.joins s.guards ws' b L) :
    Rest V side m₀ v N ws' b L (m.reporting rest u t) ⟨s.guards, w, q⟩ where
  noted := h.noted.silent hgo.to_reflTransGen hevents hnotices
  reaches := h.reaches.trans (goes_of_silent hgo.to_reflTransGen)
  roots := h.roots
  world := hw
  guards := h.guards
  waits := hwaits

/-- A continuation of a chain ends at once, unless it runs what has not run before. -/
theorem exists_prompt (h : Variants.Proceeds N q q') (hw : V.Shows N w w')
    (hg : Flags N.guards g g') (hused : ∀ i p, q = once i p → g[i]?.getD false = true) :
    ∃ u u' o, Prompt g w q u o ∧ Prompt g' w' q' u' o ∧ V.Shows N u u' := by
  cases h with
  | leaf => exact ⟨w, w', _, .deferred (.ended (.ok .null)), .deferred (.ended (.ok .null)), hw⟩
  | resume hi =>
    exact ⟨_, _, _, .deferred (.setMark (.ended (.ok .null))),
      .deferred (.setMark (.ended (.ok .null))), Variants.views_shows.setMark hw hi true⟩
  | @once i i' hi p p' =>
    have hused' : g[i]?.getD false = true := hused i p rfl
    exact ⟨w, w', _, prompt_once hused' p, prompt_once ((hg.getD hi).trans hused') p', hw⟩
  | raised f => exact ⟨w, w', _, .ended (.error f), .ended (.error f), hw⟩

end Prompt

/-- How much there is to do for the turns of a queue that only call a continuation once more. -/
def load (ready : List Turn) : Nat :=
  (ready.map fun | .resume .. => 2 | .settled .. => 1).sum

theorem load_append (ready later : List Turn) :
    load (ready ++ later) = load ready + load later := by
  simp [load]

theorem load_resume (b : Owner) (p : Process) (rest : List Turn) :
    load (.resume b p :: rest) = 2 + load rest := by
  simp [load]

theorem load_settled (j : Nat) (left : Bool) (o : Outcome) (rest : List Turn) :
    load (.settled j left o :: rest) = 1 + load rest := by
  simp [load]

/-- What can come of a turn that does not carry the rest on: the rest stays where it is, or it has
waited for this turn and has one again. -/
inductive Passes (V : Variants) (side : Nat) (m₀ : Machine) (v : World) (N : Numbers)
    (ws : List Wait) (a : Owner) (K : Outcome → Process) (extra : List Wait) (ts : List Turn)
    (m : Machine) (s : Lone) : Prop
  | stays {m₁ : Machine} (hgo : TransGen Goes m m₁)
      (hload : ¬ BranchGoes side m₀ m → m₁.focus = none ∧ load m₁.ready < load m.ready)
      (h : Resting V side m₀ v N ws a K extra ts m₁ s)
  | returns {m₁ : Machine} {s₁ : Lone} {j : Nat} {other : Option Fault} {J : Join} {e : Settled}
      (hextra : extra = [(j, other)]) (hJ : m.joins[j]? = some J) (hgo : Goes m m₁)
      (hs : ReflTransGen Lone.Goes s s₁)
      (h : Resting V side m₀ v N ws a K [] [.resume a (J.next e)] m₁ s₁)

section Loose

variable {rest : List Turn} {w : Wait}

theorem branchGoes_of_ready (hfocus : m.focus = none) (hready : m.ready = t :: rest)
    (hj : BranchAt side m₀ j) (ht : LooseAt side m₀ N m (j, none) t) : BranchGoes side m₀ m :=
  .inr ⟨hfocus, t, rest, hready, j, hj, ht.isBelow⟩

/-- A continuation is called that was called before. -/
theorem Resting.spent {i : Nat} {p : Process}
    (h : Resting V side m₀ v N ws a K extra ts m s) (hfocus : m.focus = none)
    (hready : m.ready = .resume (.side j false) (once i p) :: rest)
    (hrest : Among side m₀ N m (extra ++ ws) ts rest)
    (hw : (j, some .nextCalledTwice) ∈ extra ++ ws) (hi : m.used i = true) :
    ∃ m₁, TransGen Goes m m₁ ∧ m₁.focus = none ∧
      m₁.ready = rest ++ [Turn.settled j false (.error .nextCalledTwice)] ∧
      Resting V side m₀ v N ws a K extra ts m₁ s := by
  have hprompt : Prompt m.guards m.world (once i p) m.world (.error .nextCalledTwice) :=
    prompt_once hi p
  have hgo := hprompt.goes hfocus hready
  refine ⟨_, transGen_of_silent hgo, rfl, rfl, ?_⟩
  exact
    { toRest := h.toRest.reports hgo h.world rfl rfl h.waits
      focus := nofun
      ready := hrest.onward (.of_marks (goes_of_silent hgo.to_reflTransGen) rfl)
        (List.forall_mem_singleton.mpr ⟨_, hw, .told (o := .error .nextCalledTwice)⟩)
      turns := h.turns.joins fun hJ _ _ => hJ }

/-- A branch has its turn. -/
theorem Resting.resumes (h : Resting V side m₀ v N ws a K extra ts m s) (hfocus : m.focus = none)
    (hready : m.ready = .resume b p :: rest) (hrest : Among side m₀ N m (extra ++ ws) ts rest)
    (hj : BranchAt side m₀ j) (hw : (j, none) ∈ extra ++ ws) (hb : Under N m j b)
    (hp : (Trait.keepsOff N).later m.guards.length m.world.marks.length p) :
    ∃ m₁, Goes m m₁ ∧ Resting V side m₀ v N ws a K extra ts m₁ s := by
  have hgo : Goes m { m with ready := rest, focus := some (b, p) } := step_of_ready hfocus hready
  have hon : Onward m N { m with ready := rest, focus := some (b, p) } N :=
    .of_marks (.single hgo) rfl
  refine ⟨_, hgo, ?_⟩
  exact
    { toRest := h.toRest.quiet hgo rfl rfl rfl h.waits
      focus := by
        rintro _ _ ⟨⟩
        exact ⟨j, hj, hw, hb.onward hon, (Trait.keepsOff N).of_later hp⟩
      ready := hrest.later hon
      turns := h.turns.joins fun hJ _ _ => hJ }

/-- Both sides of something that a branch has begun have ended. -/
theorem Resting.rejoins {J : Join} {left left' : Bool} {o' : Outcome}
    (h : Resting V side m₀ v N ws a K extra ts m s) (hfocus : m.focus = none)
    (hready : m.ready = .settled i left o :: rest) (hrest : Among side m₀ N m (extra ++ ws) ts rest)
    (hj : BranchAt side m₀ j) (hw : (j, none) ∈ extra ++ ws) (hJ : m.joins[i]? = some J)
    (hnext : ∀ e, (Trait.keepsOff N).later m.guards.length m.world.marks.length (J.next e))
    (hb : Under N m j J.owner) (hfirst : J.first = some (left', o')) :
    ∃ m₁, Goes m m₁ ∧ Resting V side m₀ v N ws a K extra ts m₁ s := by
  have hgo := goes_rejoined hfocus hready hJ hfirst
  have hon : Onward m N (m.rejoined rest J (pair left' o' o)) N := .of_marks (.single hgo) rfl
  refine ⟨_, hgo, ?_⟩
  exact
    { toRest := h.toRest.quiet hgo rfl rfl rfl h.waits
      focus := elim_of_idle hfocus
      ready := hrest.onward hon (List.forall_mem_singleton.mpr
        ⟨_, hw, .goes hj (hb.onward hon) (hon.keepsOff (hnext _))⟩)
      turns := h.turns.joins fun hJ _ _ => hJ }

/-- A join that a branch has begun is told how a side of it has ended. -/
theorem Resting.tells {J : Join} (h : Resting V side m₀ v N ws a K extra ts m s)
    (hfocus : m.focus = none) (hready : m.ready = .settled i left o :: rest)
    (hrest : Among side m₀ N m (extra ++ ws) ts rest) (hj : BranchAt side m₀ j)
    (hw : (j, none) ∈ extra ++ ws) (hJ : m.joins[i]? = some J)
    (hnext : ∀ e, (Trait.keepsOff N).later m.guards.length m.world.marks.length (J.next e))
    (hb : Under N m j J.owner) :
    ∃ m₁, Goes m m₁ ∧ Resting V side m₀ v N ws a K extra ts m₁ s := by
  rcases hfirst : J.first with _ | ⟨left', o'⟩
  · have hon : ∀ w ∈ ws, w.1 = i → left = false ∧ Outcome.fault? o = w.2 := by
      rintro w hw rfl
      obtain ⟨⟨ws', K', hwaits⟩, -⟩ := exists_waits h.waits hw hJ
      exact absurd hb.isBelow (not_below_of_waits hwaits)
    have hoff : J.owner ≠ a := by
      rintro rfl
      exact not_below_of_waits h.waits hb.isBelow
    obtain ⟨m₁, hgo, -, -, h₁⟩ := h.told hfocus hready hrest hJ hfirst hon (absurd · hoff)
    exact ⟨m₁, hgo, h₁⟩
  · exact h.rejoins hfocus hready hrest hj hw hJ hnext hb hfirst

/-- A join at which the rest waits is told how the branch of it has ended. -/
theorem Resting.hears (hm₀ : Reachable m₀) (h : Resting V side m₀ v N ws a K extra ts m s)
    (hfocus : m.focus = none) (hready : m.ready = .settled j false o :: rest)
    (hrest : Among side m₀ N m (extra ++ ws) ts rest) (hw : (j, Outcome.fault? o) ∈ ws) :
    ∃ m₁, Goes m m₁ ∧ m₁.focus = none ∧ m₁.ready = rest ∧
      Resting V side m₀ v N ws a K extra ts m₁ s := by
  obtain ⟨place, hplaced⟩ := h.exists_placed hm₀
  have hmem : .settled j false o ∈ m.ready := hready ▸ List.mem_cons_self
  obtain ⟨J, hJ⟩ : ∃ J, m.joins[j]? = some J :=
    ⟨_, List.getElem?_eq_getElem (lt_of_waits h.waits hw)⟩
  have hexpected := (exists_waits h.waits hw hJ).2
  have hfirst : J.first = none := by
    rcases hfirst : J.first with _ | ⟨left', o'⟩
    · rfl
    · have hleft := hplaced.other_side hmem hJ hfirst
      rw [(hexpected _ _ hfirst).1] at hleft
      cases hleft
  have hon : ∀ u ∈ ws, u.1 = j → false = false ∧ Outcome.fault? o = u.2 := fun u hu heq => by
    rw [eq_of_waits h.waits hu hw heq]
    exact ⟨rfl, rfl⟩
  exact h.told hfocus hready hrest hJ hfirst hon fun _ => ⟨_, hw, rfl⟩

/-- A turn that does not carry the rest on. -/
theorem Resting.loose (hm₀ : Reachable m₀) (h : Resting V side m₀ v N ws a K extra ts m s)
    (hfocus : m.focus = none) (hready : m.ready = t :: rest)
    (hrest : Among side m₀ N m (extra ++ ws) ts rest) (ht : Loose side m₀ N m (extra ++ ws) t) :
    Passes V side m₀ v N ws a K extra ts m s := by
  obtain ⟨w, hw, ht⟩ := ht
  cases ht with
  | @goes j b p hj ha hp =>
    have hgoes : BranchGoes side m₀ m := branchGoes_of_ready hfocus hready hj (.goes hj ha hp)
    obtain ⟨m₁, hgo, h₁⟩ := h.resumes hfocus hready hrest hj hw ha hp
    exact .stays (.single hgo) (absurd hgoes) h₁
  | @tells j i left o J hj hJ hnext ha =>
    have hgoes : BranchGoes side m₀ m :=
      branchGoes_of_ready hfocus hready hj (.tells hj hJ hnext ha)
    obtain ⟨m₁, hgo, h₁⟩ := h.tells hfocus hready hrest hj hw hJ hnext ha
    exact .stays (.single hgo) (absurd hgoes) h₁
  | @spent j i p hj hi =>
    obtain ⟨m₁, hgo, hidle, hready₁, h₁⟩ := h.spent hfocus hready hrest hw hi
    refine .stays hgo (fun _ => ⟨hidle, ?_⟩) h₁
    rw [hready₁, hready, load_append, load_resume, load_settled]
    simp only [load, List.map_nil, List.sum_nil]
    omega
  | @told j o =>
    rcases List.mem_append.mp hw with hextra | hw
    · have hturns := h.turns
      cases hturns with
      | queued | telling | racing => cases hextra
      | told hJ howner hfirst _ hnext =>
        cases List.mem_singleton.mp hextra
        obtain ⟨m₁, s₁, hgo, hs, h₁⟩ := h.toRest.pop hm₀ hfocus hready hJ howner hfirst
          (hnext _ rfl rfl) hrest.loose
        exact .returns rfl hJ hgo hs h₁
    · obtain ⟨m₁, hgo, hidle, hready₁, h₁⟩ := h.hears hm₀ hfocus hready hrest hw
      refine .stays (.single hgo) (fun _ => ⟨hidle, ?_⟩) h₁
      rw [hready₁, hready, load_settled]
      omega

end Loose

end Machine

end UpdateDispatch
