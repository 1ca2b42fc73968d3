import UpdateDispatch.Proofs.Dispatch.Boundaries
import UpdateDispatch.Proofs.Dispatch.Forks

/-!
# Nothing goes on after an end

A process that has started sides runs again only after both have come to their ends, and those ends
came only after everything that the sides had started had ended. So while a process runs, all that
it has started is over for good (`Machine.Reachable.allOver`), however forks and boundaries are
nested.

Two moments matter in particular: the one at which the handling of an update is over, and the one at
which the handler of a boundary is called (`Machine.over_at_ends`).
-/

namespace UpdateDispatch

open Relation

namespace Machine

open Process

variable {m m' e s : Machine} {place : Owner → Place} {a b : Owner} {p p₀ q : Process} {o : Outcome}
  {K : Process → Process} {k : Outcome → Process} {j : Nat} {J : Join} {T : Trait}

/-! ## What is not over -/

/-- An owner is not over: its process runs or has a turn, its end is about to be told to a join, or
it waits for a side that is not over. -/
inductive Unfinished (m : Machine) : Owner → Prop
  | running {a : Owner} {p : Process} (h : m.focus = some (a, p)) : Unfinished m a
  | turn {t : Turn} (h : t ∈ m.ready) : Unfinished m t.owner
  | waiting {j : Nat} {J : Join} {left : Bool} (hJ : m.joins[j]? = some J)
      (h : Unfinished m (.side j left)) : Unfinished m J.owner

theorem Placed.ne_gone_of_unfinished (h : Placed m place) (hb : Unfinished m b) :
    place b ≠ .gone := by
  induction hb with
  | running hfocus =>
    rw [h.running hfocus]
    nofun
  | turn hturn =>
    rw [h.queued hturn]
    nofun
  | waiting hJ _ ih =>
    rw [h.waiting hJ ih]
    nofun

theorem joins_of_reaches (hrun : ReflTransGen Next m m') (hJ : m.joins[j]? = some J) :
    ∃ J', m'.joins[j]? = some J' ∧ J'.owner = J.owner := by
  induction hrun with
  | refl => exact ⟨J, hJ, rfl⟩
  | tail _ hnext ih =>
    obtain ⟨J', hJ', howner⟩ := ih
    obtain ⟨J'', hJ'', howner', -⟩ := hnext.joins hJ'
    exact ⟨J'', hJ'', howner'.trans howner⟩

/-- Who is over stays so, unless it is a side that has not been started yet. -/
theorem Uniform.gone_of_reaches (h : Uniform T m place) (hT : T.Upheld) (hgone : place b = .gone)
    (hborn : ∀ j left, b = .side j left → j < m.joins.length) (hrun : ReflTransGen Next m m') :
    ∃ place', Uniform T m' place' ∧ place' b = .gone ∧
      ∀ j left, b = .side j left → j < m'.joins.length := by
  induction hrun with
  | refl => exact ⟨place, h, hgone, hborn⟩
  | tail _ hnext ih =>
    obtain ⟨place', h', hgone', hborn'⟩ := ih
    obtain ⟨place'', h'', hfollows⟩ := Uniform.next h' hT hnext
    refine ⟨place'', h'', hfollows.gone hgone' fun left heq => ?_, fun j left heq => ?_⟩
    · exact Nat.lt_irrefl _ (hborn' _ left heq)
    · exact Nat.lt_of_lt_of_le (hborn' j left heq) hnext.joins_le

theorem Below.born {base : Nat} (h : Below base m a b) (hne : b ≠ a) {left : Bool}
    (heq : b = .side j left) : j < m.joins.length := by
  cases h with
  | self => exact absurd rfl hne
  | side left' hj hJ hbelow =>
    cases heq
    exact (List.getElem?_eq_some_iff.mp hJ).1

/-- While a process runs, all that it has started is over, and it stays so. -/
theorem Reachable.not_unfinished (he : Reachable e) (hfocus : e.focus = some (a, p)) {base : Nat}
    (hbelow : Below base e a b) (hne : b ≠ a) (hrun : ReflTransGen Next e s) :
    ¬ Unfinished s b := by
  obtain ⟨place, huniform⟩ := he.uniform
  obtain ⟨place', huniform', hgone, -⟩ := huniform.gone_of_reaches (Trait.upheld_sound _)
    (huniform.placed.gone_of_below hfocus hbelow hne) (fun _ _ heq => hbelow.born hne heq) hrun
  exact fun hb => huniform'.placed.ne_gone_of_unfinished hb hgone

/-! ## What has come to an end -/

/-- A join that is new was made by its owner. -/
theorem exists_split (hrun : ReflTransGen Next m m') (hJ : m'.joins[j]? = some J)
    (hj : m.joins.length ≤ j) : ∃ s l r k, ReflTransGen Next m s ∧ TransGen Next s m' ∧
      s.focus = some (J.owner, .both l r k) ∧ s.joins.length = j := by
  induction hrun generalizing J with
  | refl =>
    rw [List.getElem?_eq_none hj] at hJ
    cases hJ
  | @tail s s' hrun hnext ih =>
    by_cases hlt : j < s.joins.length
    · obtain ⟨I, hI⟩ : ∃ I, s.joins[j]? = some I := ⟨_, List.getElem?_eq_getElem hlt⟩
      obtain ⟨J', hJ', howner, -⟩ := hnext.joins hI
      obtain ⟨t, l, r, k, ht, hlater, hfocus, hlength⟩ := ih hI
      rw [hJ] at hJ'
      cases hJ'
      exact ⟨t, l, r, k, ht, hlater.tail hnext, howner ▸ hfocus, hlength⟩
    · rcases hnext.joins_length with heq | ⟨c, l, r, k, hfocus, rfl⟩
      · rw [List.getElem?_eq_none (by omega)] at hJ
        cases hJ
      · rcases getElem?_joins_split hJ with hold | ⟨rfl, rfl⟩
        · exact absurd (List.getElem?_eq_some_iff.mp hold).1 hlt
        · exact ⟨s, l, r, k, hrun, .single hnext, hfocus, rfl⟩

theorem eq_of_leads_ended (h : Ended p o) (hleads : Leads p q) : q = p := by
  rcases ReflTransGen.cases_head hleads with rfl | ⟨r, hstep, -⟩
  · rfl
  · cases h <;> cases hstep <;> rename_i hruns <;> cases hruns

theorem HasEnded.of_split {l r : Process} {k : Settled → Process} (hm : Reachable m)
    (hs : ReflTransGen Next m s) (hfocus : s.focus = some (a, .both l r k))
    (hlater : TransGen Next s e) (hq : e.focus = some (a, q)) (hend : ReflTransGen Next e m')
    (left : Bool) : ∃ o, HasEnded m m' (.side s.joins.length left) o := by
  obtain ⟨ends, -, hl, hr⟩ := (hm.of_reaches hs).waits_for_both hfocus hlater hq
  have hsplit : ReflTransGen Next m (s.split a l r k) := hs.tail (.advance hfocus)
  cases left with
  | true =>
    obtain ⟨t, p, ht, hte, hp, -, hended⟩ := hl.ended
    exact ⟨_, t, p, hsplit.trans ht, hte.trans hend, hp, hended⟩
  | false =>
    obtain ⟨t, p, ht, hte, hp, -, hended⟩ := hr.ended
    exact ⟨_, t, p, hsplit.trans ht, hte.trans hend, hp, hended⟩

/-- While a process runs, all that it has started since some earlier state has come to an end. -/
theorem Reachable.hasEnded_of_below (hm : Reachable m) (hrun : ReflTransGen Next m e)
    (hfocus : e.focus = some (a, p)) (hbelow : Below m.joins.length e a b) (hne : b ≠ a) :
    ∃ o, HasEnded m e b o := by
  induction hbelow with
  | self => exact absurd rfl hne
  | @side j J left hj hJ _ ih =>
    by_cases howner : J.owner = a
    · obtain ⟨s, l, r, k, hs, hlater, hboth, rfl⟩ := exists_split hrun hJ hj
      rw [howner] at hboth
      exact HasEnded.of_split hm hs hboth hlater hfocus .refl left
    · -- the owner of the join has ended, and it made the join before that
      obtain ⟨o, t, r, ht, hte, hr, hended⟩ := ih howner
      by_cases hlt : j < t.joins.length
      · obtain ⟨I, hI⟩ : ∃ I, t.joins[j]? = some I := ⟨_, List.getElem?_eq_getElem hlt⟩
        obtain ⟨J', hJ', hown⟩ := joins_of_reaches hte hI
        rw [hJ] at hJ'
        cases hJ'
        obtain ⟨s, l, r, k, hs, hlater, hboth, rfl⟩ := exists_split ht hI hj
        rw [← hown] at hboth
        exact HasEnded.of_split hm hs hboth hlater hr hte left
      · obtain ⟨s, l, r', k, hs, -, hboth, -⟩ := exists_split hte hJ (Nat.le_of_not_lt hlt)
        have hleads := (hm.of_reaches ht).leads (.inl hr) hs hboth
        cases hended <;> cases eq_of_leads_ended (by constructor) hleads

/-- All that `a` has started between two states has returned or raised by the second one, and from
then on nothing of it goes on. -/
def AllOver (m e : Machine) (a : Owner) : Prop :=
  ∀ b, Below m.joins.length e a b → b ≠ a →
    (∃ o, HasEnded m e b o) ∧ ∀ s, ReflTransGen Next e s → ¬ Unfinished s b

theorem Reachable.allOver (hm : Reachable m) (hrun : ReflTransGen Next m e)
    (hfocus : e.focus = some (a, p)) : AllOver m e a := fun _ hbelow hne =>
  ⟨hm.hasEnded_of_below hrun hfocus hbelow hne, fun _ hlater =>
    (hm.of_reaches hrun).not_unfinished hfocus hbelow hne hlater⟩

/-! ## The ends of roots -/

/-- What a step changes of the outcomes of the roots. -/
theorem Next.roots (hnext : Next m m') (hawait : ∀ c t k, m.focus ≠ some (c, .await t k)) :
    m'.roots = m.roots ∨ ∃ i p o, m.focus = some (.root i, p) ∧ Ended p o ∧
      m'.roots = m.roots.set i (some o) := by
  cases hnext with
  | @advance c p hfocus =>
    cases p with
    | value v =>
      cases c with
      | root i => exact .inr ⟨i, _, _, hfocus, .value v, rfl⟩
      | side j left | shared t => exact .inl rfl
    | raised f =>
      cases c with
      | root i => exact .inr ⟨i, _, _, hfocus, .raised f, rfl⟩
      | side j left | shared t => exact .inl rfl
    | await t k => exact absurd hfocus (hawait c t k)
    | _ => exact .inl rfl
  | @turn before after t hfocus hready =>
    cases t with
    | resume c p => exact .inl rfl
    | settled j left o =>
      simp only [take, settle]
      split
      · exact .inl rfl
      · split <;> exact .inl rfl

theorem Reachable.not_await (hm : Reachable m) (c : Owner) (t : Nat) (k : Outcome → Process) :
    m.focus ≠ some (c, .await t k) := by
  intro hfocus
  obtain ⟨A, hsound⟩ := hm.sound hfocus
  exact hsound

/-- A root that has an outcome has run to it. -/
theorem exists_end_of_root {w : World} {ps : List Process} (hps : ∀ p ∈ ps, Dispatches p)
    (hrun : ReflTransGen Next (ofRoots w ps) m) {i : Nat} (h : m.roots[i]? = some (some o)) :
    ∃ e p, ReflTransGen Next (ofRoots w ps) e ∧ ReflTransGen Next e m ∧
      e.focus = some (.root i, p) ∧ Ended p o := by
  induction hrun with
  | refl =>
    rw [ofRoots, List.getElem?_map] at h
    cases hp : ps[i]? <;> rw [hp] at h <;> cases h
  | @tail s s' hrun hnext ih =>
    have hs : Reachable s := ⟨w, ps, hps, hrun⟩
    have hlast : s.roots[i]? = some (some o) → ∃ e p, ReflTransGen Next (ofRoots w ps) e ∧
        ReflTransGen Next e s' ∧ e.focus = some (.root i, p) ∧ Ended p o := fun h => by
      obtain ⟨e, p, he, hes, hp⟩ := ih h
      exact ⟨e, p, he, hes.tail hnext, hp⟩
    rcases hnext.roots hs.not_await with heq | ⟨i', p, o', hfocus, hended, heq⟩
    · exact hlast (heq ▸ h)
    · rw [heq, List.getElem?_set] at h
      split at h
      · next hi =>
        split at h
        · cases h
          exact ⟨s, p, hrun, .single hnext, hi ▸ hfocus, hended⟩
        · cases h
      · exact hlast h

/-- The outcome of a root is one that its process comes to. -/
theorem leads_of_root {w : World} {ps : List Process} (hps : ∀ p ∈ ps, Dispatches p) {i : Nat}
    (hi : ps[i]? = some p₀) (hrun : ReflTransGen Next (ofRoots w ps) m)
    (h : m.roots[i]? = some (some o)) : Leads p₀ (ended o) := by
  obtain ⟨e, p, he, -, hfocus, hended⟩ := exists_end_of_root hps hrun h
  have hturn : .resume (.root i) p₀ ∈ (ofRoots w ps).ready := by
    obtain ⟨hlt, rfl⟩ := List.getElem?_eq_some_iff.mp hi
    exact List.mem_mapIdx.mpr ⟨i, hlt, rfl⟩
  have hleads := (show Reachable (ofRoots w ps) from ⟨w, ps, hps, .refl⟩).leads (.inr hturn) he
    hfocus
  cases hended <;> exact hleads

/-- After its end an owner starts nothing. -/
theorem Below.of_ended {base : Nat} (h : Below base s a b) (he : Reachable e)
    (hfocus : e.focus = some (a, p)) (hended : Ended p o) (hrun : ReflTransGen Next e s) :
    Below base e a b := by
  induction h with
  | self => exact .self
  | @side j J left hj hJ _ ih =>
    by_cases hlt : j < e.joins.length
    · obtain ⟨I, hI⟩ : ∃ I, e.joins[j]? = some I := ⟨_, List.getElem?_eq_getElem hlt⟩
      obtain ⟨J', hJ', howner⟩ := joins_of_reaches hrun hI
      rw [hJ] at hJ'
      cases hJ'
      exact .side left hj hI (howner ▸ ih)
    · obtain ⟨t, l, r, k, ht, -, hboth, -⟩ := exists_split hrun hJ (Nat.le_of_not_lt hlt)
      by_cases howner : J.owner = a
      · have hleads := he.leads (.inl hfocus) ht (howner ▸ hboth)
        cases hended <;> cases eq_of_leads_ended (by constructor) hleads
      · exact absurd (.running hboth) (he.not_unfinished hfocus ih howner ht)

/-- When a root has its outcome, all that it has started is over. -/
theorem allOver_of_root {w : World} {ps : List Process} (hps : ∀ p ∈ ps, Dispatches p)
    (hrun : ReflTransGen Next (ofRoots w ps) m) {i : Nat} (h : m.roots[i]? = some (some o)) :
    AllOver (ofRoots w ps) m (.root i) := by
  obtain ⟨e, p, he, hem, hfocus, hended⟩ := exists_end_of_root hps hrun h
  have hstart : Reachable (ofRoots w ps) := ⟨w, ps, hps, .refl⟩
  intro b hbelow hne
  have hbelow := hbelow.of_ended (hstart.of_reaches he) hfocus hended hem
  obtain ⟨⟨o', t, r, ht, hte, hr⟩, hover⟩ := hstart.allOver he hfocus b hbelow hne
  exact ⟨⟨o', t, r, ht, hte.trans hem, hr⟩, fun s hlater => hover s (hem.trans hlater)⟩

/-! ## The ends of processes that others wait for -/

/-- The process that stood as `p₀` in `m` has come to the end `o` in `e`, and nothing that was
started in the meantime goes on. -/
structure EndsAlone (m : Machine) (a : Owner) (K : Process → Process) (k : Outcome → Process)
    (p₀ : Process) (e : Machine) (o : Outcome) : Prop extends EndsAt a K k p₀ e o where
  reaches : ReflTransGen Next m e
  allOver : AllOver m e a

/-- A process whose end is waited for still runs, or it has ended and left nothing behind. -/
theorem Reachable.runs_or_ends (hm : Reachable m) (hK : Surrounds K)
    (hfocus : m.focus = some (a, K (p₀.andThen k))) (hrun : ReflTransGen Next m m')
    (hq : m'.focus = some (a, q)) : (∃ p, Leads p₀ p ∧ q = K (p.andThen k)) ∨
      ∃ e o, EndsAlone m a K k p₀ e o ∧ ReflTransGen Next e m' := by
  obtain ⟨place, huniform⟩ := hm.uniform
  have hrunning : place a = .running := huniform.placed.running hfocus
  have hobeys : Obeys (Trait.trusted.Along (fun p => K (p.andThen k)) p₀) m place a :=
    huniform.placed.obeys_of_focus hfocus ⟨(huniform.obeys a).focus hfocus, p₀, rfl, .refl⟩
  rcases huniform.along (Trait.upheld_sound _) (hK.encloses_await k) (by rw [hrunning]; exact nofun)
    hobeys hrun hq with ⟨p, rfl, hleads⟩ | ⟨e, p, he, hp, hleads, ⟨o, ho⟩, hlater⟩
  · exact .inl ⟨p, hleads, rfl⟩
  · exact .inr ⟨e, o, ⟨endsAt_of_stopped hp hleads ho, he, hm.allOver he hp⟩,
      hlater.to_reflTransGen⟩

/-! ## Updates and boundaries -/

theorem run_read (hK : Surrounds K) {f : World → Process} (h : m.focus = some (a, K (.read f)))
    (n : Nat) : run (n + 1) m = run n (m.focusOn a (K (f m.world))) := by
  rw [hK.read] at h
  rw [run, step_of_focus h]
  rfl

theorem run_write (hK : Surrounds K) {f : World → World} (h : m.focus = some (a, K (.write f p)))
    (n : Nat) : run (n + 1) m = run n { m with world := f m.world, focus := some (a, K p) } := by
  rw [hK.write] at h
  rw [run, step_of_focus h]
  rfl

variable {inner x i : Nat} {handler : Script} {next : Process} {f : Fault}

/-- A boundary makes its mark and calls its chain. -/
theorem run_boundary (hK : Surrounds K)
    (hfocus : m.focus = some (a, K (Process.boundary inner handler x next))) :
    run 2 m = { m with
      world := m.world.addMark
      focus := some (a, K ((dispatch inner x (resume m.world.marks.length)).andThen
        (afterChain handler x m.world.marks.length next))) } := by
  rw [boundary_eq] at hfocus
  rw [run_read hK hfocus, run_write hK rfl]
  rfl

/-- After a failure a boundary resets its mark, logs the failure and calls its handler. -/
theorem run_caught (hK : Surrounds K)
    (hfocus : m.focus = some (a, K (afterChain handler x i next (.error f)))) :
    run 2 m = { m with
      world := (m.world.setMark i false).log (.boundaryCaught f)
      focus := some (a, K ((handler.call (handlerFrame x i f)).andThen
        (unlessFailed (restIfMarked i next)))) } := by
  rw [run_write hK hfocus, run_write hK rfl]
  rfl

/-- When an update has been handled, be it by itself or for somebody who waits for that, all that
was started for it is over. When the chain of a boundary has ended, all that was started in it is
over, and so it is when the handler is called. -/
theorem over_at_ends :
    (∀ w ps i id update, (∀ p ∈ ps, Dispatches p) → ps[i]? = some (Bot.handleUpdate id update) →
      ∀ m o, ReflTransGen Next (ofRoots w ps) m → m.roots[i]? = some (some o) →
        Leads (Bot.handleUpdate id update) (ended o) ∧ AllOver (ofRoots w ps) m (.root i)) ∧
    (∀ m, Reachable m → ∀ a K k id update, Surrounds K →
      m.focus = some (a, K ((Bot.handleUpdate id update).andThen k)) →
      ∀ m' q, ReflTransGen Next m m' → m'.focus = some (a, q) →
        (∃ p, Leads (Bot.handleUpdate id update) p ∧ q = K (p.andThen k)) ∨
        ∃ e o, EndsAlone m a K k (Bot.handleUpdate id update) e o ∧ ReflTransGen Next e m') ∧
    ∀ m, Reachable m → ∀ a K inner handler x next, Surrounds K →
      m.focus = some (a, K (Process.boundary inner handler x next)) →
      ∀ i, i = m.world.marks.length → ∀ chain, chain = dispatch inner x (resume i) →
      (run 2 m).focus = some (a, K (chain.andThen (afterChain handler x i next))) ∧
      ∀ m' q, ReflTransGen Next (run 2 m) m' → m'.focus = some (a, q) →
        (∃ p, Leads chain p ∧ q = K (p.andThen (afterChain handler x i next))) ∨
        ∃ e o, EndsAlone (run 2 m) a K (afterChain handler x i next) chain e o ∧
          ReflTransGen Next e m' ∧
          ∀ f, o = .error f → AllOver (run 2 m) (run 2 e) a ∧
            (run 2 e).focus = some (a, K ((handler.call (handlerFrame x i f)).andThen
              (unlessFailed (restIfMarked i next)))) := by
  refine ⟨fun w ps i id update hps hi m o hrun h =>
      ⟨leads_of_root hps hi hrun h, allOver_of_root hps hrun h⟩,
    fun m hm a K k id update hK hfocus m' q hrun hq => hm.runs_or_ends hK hfocus hrun hq, ?_⟩
  rintro m hm a K inner handler x next hK hfocus i rfl chain rfl
  have hcalled : (run 2 m).focus = some (a, K ((dispatch inner x
      (resume m.world.marks.length)).andThen
        (afterChain handler x m.world.marks.length next))) := by
    rw [run_boundary hK hfocus]
  have hm₂ : Reachable (run 2 m) := hm.of_reaches (reaches_run 2 m)
  refine ⟨hcalled, fun m' q hrun hq => ?_⟩
  refine (hm₂.runs_or_ends hK hcalled hrun hq).imp id ?_
  rintro ⟨e, o, hend, hlater⟩
  refine ⟨e, o, hend, hlater, ?_⟩
  rintro f rfl
  have hhandler := congrArg Machine.focus (run_caught hK hend.focus)
  exact ⟨hm₂.allOver (hend.reaches.trans (reaches_run 2 e)) hhandler, hhandler⟩

/-- A script that notes a text and fails. -/
def failing (pauses : Nat) (text : String) : Link :=
  .script
    { actions := [.pause pauses, .note (.str text),
        .throw { kind := .plain .value, value := .str text }]
      plain := false }

/-- A bot with a boundary, and in it a fork of which both sides fail. -/
def failingWorld : World :=
  (Build.outcome
    (do
      let bot ← Build.newComposer { bot := some { identity := some default } }
      let inner ← Build.boundary bot recovering []
      let _ ← Build.fork inner [.link (failing 3 "branch")]
      Build.use inner [.link (failing 1 "rest")])
    { client := none, me := default }).2

/-- An update. -/
def seventh : Json := .obj [("update_id", .int 7)]

/-- The machine that handles two updates in a row. -/
def failingStart : Machine := ofRoots failingWorld [Bot.handleUpdates 0 [seventh, .obj []]]

theorem andThen_ne_value {k : Outcome → Process} (hk : ∀ o v, k o ≠ .value v) (p : Process)
    (v : Json) : p.andThen k ≠ .value v := by
  induction p with
  | value _ | raised _ => exact hk _ v
  | deferred _ ih => exact ih
  | _ => nofun

/-- The fork's two sides have ended when the update has been handled, and so they have when the
handler of the boundary is called. -/
theorem over_at_ends_failing :
    (∀ left, (∃ o, HasEnded (ofRoots failingWorld [Bot.handleUpdate 0 seventh])
        (run 60 (ofRoots failingWorld [Bot.handleUpdate 0 seventh])) (.side 0 left) o) ∧
      ¬ Unfinished (run 60 (ofRoots failingWorld [Bot.handleUpdate 0 seventh])) (.side 0 left)) ∧
    (∃ k e o, EndsAlone (run 1 failingStart) (.root 0) (fun p => p) k (Bot.handleUpdate 0 seventh)
      e o) ∧
    ∃ k e o, EndsAlone (run 2 (run 11 failingStart)) (.root 0) (fun p => p.andThen k)
      (afterChain recovering 0 0 leaf) (dispatch 1 0 (resume 0)) e o := by
  obtain ⟨hroot, hupdate, hboundary⟩ := over_at_ends
  have hend : (run 105 failingStart).focus = some (.root 0, value .null) := rfl
  have hstart : Reachable failingStart :=
    ⟨_, _, by simpa using .handleUpdates 0 [seventh, .obj []], .refl⟩
  refine ⟨fun left => ?_, ?_, ?_⟩
  · obtain ⟨-, hover⟩ := hroot failingWorld [Bot.handleUpdate 0 seventh] 0 0 seventh
      (by simpa using .handleUpdate 0 seventh) rfl _ (.ok (.int 0)) (reaches_run 60 _) rfl
    obtain ⟨hended, hlater⟩ := hover (.side 0 left) (.side left (Nat.le_refl _) rfl .self) nofun
    exact ⟨hended, hlater _ .refl⟩
  · obtain ⟨k, hfocus, hk⟩ : ∃ k, (run 1 failingStart).focus =
        some (.root 0, (Bot.handleUpdate 0 seventh).andThen k) ∧ ∀ o v, k o ≠ .value v := by
      refine ⟨_, rfl, fun o v => ?_⟩
      cases o with
      | ok _ => nofun
      | error f =>
        dsimp only
        split
        · nofun
        · nofun
    rcases hupdate _ (hstart.of_reaches (reaches_run 1 _)) (.root 0) (fun p => p) k 0 seventh .hole
        hfocus _ _ (reaches_run 104 (run 1 failingStart)) hend with ⟨p, -, hp⟩ | ⟨e, o, hends, -⟩
    · exact absurd hp.symm (andThen_ne_value hk p _)
    · exact ⟨k, e, o, hends⟩
  · obtain ⟨k, hfocus⟩ : ∃ k, (run 11 failingStart).focus =
        some (.root 0, (Process.boundary 1 recovering 0 leaf).andThen k) := ⟨_, rfl⟩
    obtain ⟨-, hchain⟩ := hboundary _ (hstart.of_reaches (reaches_run 11 _)) (.root 0) _ 1
      recovering 0 leaf (.andThen k .hole) hfocus 0 rfl _ rfl
    rcases hchain _ _ (reaches_run 92 (run 2 (run 11 failingStart))) hend with
      ⟨p, -, hp⟩ | ⟨e, o, hends, -⟩
    · rw [andThen_andThen] at hp
      refine absurd hp.symm (andThen_ne_value (fun o v => ?_) p _)
      cases o <;> nofun
    · exact ⟨k, e, o, hends⟩

end Machine
end UpdateDispatch
