import UpdateDispatch.Proofs.Dispatch.Sound

/-!
# Boundaries

A boundary runs its chain, then its handler if the chain has failed, and then the rest of the chain
if it was asked to. Its mark says whether it was: whoever awaits the continuation that the boundary
gives sets the mark, and nobody else can (`Machine.Watched.of_trace`). So the mark is set exactly if
the chain, or the handler after a failure, has called and awaited that continuation.

`Machine.Course` lists what the process of a boundary can be at, with what has happened before, and
`Machine.boundary_course` says that it always is at one of these.
-/

namespace UpdateDispatch

open Relation

namespace Process

/-! ## Writing to a mark -/

/-- A sound process that does not own a mark changes it only by setting it. -/
theorem Sound.write_marked {f : World → World} {p : Process} {A : Access} {g i : Nat} {w : World}
    (h : Sound (write f p) A g w) (hi : i < w.marks.length) (hown : i ∉ A.owns) :
    (f w).marked i = w.marked i ∨ (i ∈ A.sets ∧ f = World.setMark i true) := by
  rcases h with ⟨rfl, -⟩ | ⟨hallows, -⟩
  · simp [World.addMark, World.marked, List.getElem?_append_left hi]
  · exact (hallows.mark i).resolve_left hown

end Process

namespace Machine

open Process

variable {m m' : Machine} {place : Owner → Place} {a b : Owner} {p q : Process} {i : Nat}

/-! ## Following a mark -/

/-- In one of these states a process that `a` has started runs the continuation of the boundary
with the mark `i`. -/
def Resumed (i : Nat) (a : Owner) (base : Nat) (past : List Machine) : Prop :=
  ∃ s ∈ past, ∃ b q, Below base s a b ∧ s.focus = some (b, .write (World.setMark i true) q)

theorem resumed_snoc {base : Nat} {past : List Machine} :
    Resumed i a base (past ++ [m]) ↔ Resumed i a base past ∨
      ∃ b q, Below base m a b ∧ m.focus = some (b, .write (World.setMark i true) q) := by
  simp [Resumed, or_and_right, exists_or]

/-- The process of `a` is about to run `p`, which may set the mark `i`. Nobody else can touch the
mark, and it is not set. -/
structure Watched (i : Nat) (a : Owner) (whole p : Process) (m : Machine)
    (place : Owner → Place) : Prop where
  placed : Placed m place
  focus : m.focus = some (a, whole)
  inner : (Trait.guarded i).now m.guards.length m.world p
  others : ∀ b, b ≠ a → Obeys (Trait.foreign i) m place b
  unset : m.world.marked i = false

variable {K : Process → Process} {k : Outcome → Process} {p₀ : Process} {base : Nat}
  {inside : Owner → Prop} {past : List Machine}

/-- While the inner process runs, a mark is changed only from inside, and only by setting it. -/
theorem Region.write_marked
    (h : Region ((Trait.guarded i).Within (fun p => K (p.andThen k)) p₀) (.guarded i) (.foreign i)
      a base m place inside)
    (hK : Surrounds K) (hexit : ¬ Exits (AtEnd K k p₀) a m) {f : World → World}
    (hfocus : m.focus = some (b, .write f q)) :
    i < m.world.marks.length ∧ ((f m.world).marked i = m.world.marked i ∨
      (inside b ∧ f = World.setMark i true)) := by
  have hobeys := (h.assigned.obeys b).focus hfocus
  by_cases hb : inside b
  · -- the running process is guarded, whether it is that of `a` or not
    have hguarded : ∃ p', (Trait.guarded i).now m.guards.length m.world (.write f p') := by
      by_cases hba : b = a
      · rw [shares, if_pos hba] at hobeys
        obtain ⟨p, hp, hleads, hnow⟩ := hobeys
        have hstop : ¬ ∃ o, Ended p.strip o :=
          fun hend => hexit ⟨_, hba ▸ hfocus, p, hp, hleads, hend⟩
        obtain ⟨p', hawaits⟩ := (hK.encloses_await k).writes hstop hp.symm
        exact ⟨p', (Trait.upheld_sound _).awaits hnow hawaits⟩
      · rw [shares, if_neg hba, if_pos hb] at hobeys
        exact ⟨q, hobeys⟩
    obtain ⟨p', A, ⟨hi, hown⟩, hsound⟩ := hguarded
    exact ⟨hi, (hsound.write_marked hi hown).imp id fun hset => ⟨hb, hset.2⟩⟩
  · rw [h.obeys_outside hb] at hobeys
    obtain ⟨A, ⟨hi, hsets, howns⟩, hsound⟩ := hobeys
    exact ⟨hi, .inl ((hsound.write_marked hi howns).resolve_right fun hset => hsets hset.1)⟩

/-- The mark is set exactly if the continuation has been run. -/
theorem Region.marked_iff
    (h : Region ((Trait.guarded i).Within (fun p => K (p.andThen k)) p₀) (.guarded i) (.foreign i)
      a base m place inside)
    (hK : Surrounds K) (hexit : ¬ Exits (AtEnd K k p₀) a m)
    (hmark : m.world.marked i = true ↔ Resumed i a base past) (hnext : Next m m') :
    m'.world.marked i = true ↔ Resumed i a base (past ++ [m]) := by
  rw [resumed_snoc, ← hmark]
  by_cases hset : ∃ b q, Below base m a b ∧ m.focus = some (b, .write (World.setMark i true) q)
  · obtain ⟨b, q, hbelow, hfocus⟩ := hset
    obtain ⟨hi, -⟩ := h.write_marked hK hexit hfocus
    refine iff_of_true ?_ (.inr ⟨b, q, hbelow, hfocus⟩)
    rw [hnext.eq_advance hfocus]
    simp [Machine.advance, World.setMark, World.marked, hi]
  · have hkept : m'.world.marked i = m.world.marked i := by
      rcases hnext.world with heq | ⟨c, f, q, hfocus, heq⟩
      · rw [heq]
      · rw [heq]
        refine (h.write_marked hK hexit hfocus).2.resolve_right ?_
        rintro ⟨hinside, rfl⟩
        exact hset ⟨c, q, h.below hinside, hfocus⟩
    rw [hkept, or_iff_left hset]

/-- What is so of a mark when the process that may set it has ended, after the states `before`. -/
structure MarkedAt (i : Nat) (a : Owner) (base : Nat) (before : List Machine) (e : Machine) : Prop
    where
  iff : e.world.marked i = true ↔ Resumed i a base before
  lt : i < e.world.marks.length
  others : ∃ place, Placed e place ∧ ∀ b, b ≠ a → Obeys (Trait.foreign i) e place b

/-- A process that may set a mark runs inside of another one, until it ends. The mark is set by then
exactly if the continuation of the boundary has been run by the process, or by what it started. -/
theorem Watched.of_trace (h : Watched i a (K (p₀.andThen k)) p₀ m place) (hK : Surrounds K)
    (hrun : Trace m past m') :
    (∀ q, m'.focus = some (a, q) → ∃ p, Leads p₀ p ∧ q = K (p.andThen k)) ∨
      ∃ before e after o, past = before ++ e :: after ∧ Trace e (e :: after) m' ∧
        Trace m before e ∧ EndsAt a K k p₀ e o ∧ MarkedAt i a m.joins.length before e := by
  have hrunning := h.placed.running h.focus
  have hobeys : Obeys ((Trait.guarded i).Within (fun p => K (p.andThen k)) p₀) m place a :=
    h.placed.obeys_of_focus h.focus ⟨p₀, rfl, .refl, h.inner⟩
  have hregion := h.placed.region (T := .guarded i) (by rw [hrunning]; exact nofun) hobeys h.others
  have htrace := hregion.of_trace (E := AtEnd K k p₀)
    (P := fun past s => s.world.marked i = true ↔ Resumed i a m.joins.length past)
    (fun n w p hp hE => (Trait.upheld_sound _).leaves_within (hK.encloses_await k) hp hE)
    (Trait.upheld_sound _) (Trait.upheld_sound _) (by simp [h.unset, Resumed])
    (fun hregion hexit hmark hnext => hregion.marked_iff hK hexit hmark hnext) hrun
  rcases htrace with ⟨_, _, hregion, -⟩ |
    ⟨before, e, after, place', inside', rfl, hbefore, hregion, hmark,
      ⟨q, hq, p, rfl, hleads, o, ho⟩, hlater⟩
  · refine .inl fun q hq => ?_
    obtain ⟨p, rfl, hleads, -⟩ := hregion.obeys.focus hq
    exact ⟨p, hleads, rfl⟩
  · obtain ⟨p', hp', hleads', A, ⟨hi, -⟩, -⟩ := hregion.obeys.focus hq
    refine .inr ⟨before, e, after, o, rfl, hlater, hbefore, endsAt_of_stopped hq hleads ho, hmark,
      hi, place', hregion.assigned.placed, fun b hb => ?_⟩
    by_cases hinside : inside' b
    · -- what was started inside is over, since `a` runs
      exact hregion.assigned.placed.obeys_of_gone
        (hregion.assigned.placed.gone_of_below hq (hregion.below hinside) hb)
    · have hobeys := hregion.assigned.obeys b
      rwa [hregion.obeys_outside hinside] at hobeys

/-! ## The course of a boundary -/

/-- The process goes on with the rest of the chain if it was asked to, and otherwise it is done. -/
def GoesOn (K : Process → Process) (next : Process) (asked : Prop) (q : Process) : Prop :=
  (asked ∧ Leads (K next.ignored) q) ∨ (¬ asked ∧ Leads (K done) q)

/-- What the process of a boundary with the mark `i` can be at, after the states that were passed
since its chain was called. -/
inductive Course (i : Nat) (a : Owner) (base : Nat) (K : Process → Process) (inner : Nat)
    (handler : Script) (x : Nat) (next : Process) : List Machine → Process → Prop
  /-- The chain runs. -/
  | protecting {past : List Machine} {p : Process}
      (hchain : Leads (dispatch inner x (resume i)) p) :
      Course i a base K inner handler x next past (K (p.andThen (afterChain handler x i next)))
  /-- The chain has returned. -/
  | returned {before after : List Machine} {e : Machine} {v : Json} {q : Process}
      (hchain : EndsAt a K (afterChain handler x i next) (dispatch inner x (resume i)) e (.ok v))
      (hrest : GoesOn K next (Resumed i a base before) q) :
      Course i a base K inner handler x next (before ++ e :: after) q
  /-- The chain has failed, and the failure is logged. -/
  | caught {before : List Machine} {e : Machine} {f : Fault} {q : Process}
      (hchain :
        EndsAt a K (afterChain handler x i next) (dispatch inner x (resume i)) e (.error f)) :
      Course i a base K inner handler x next (before ++ [e]) q
  /-- The handler runs. -/
  | handling {before after : List Machine} {e logged : Machine} {f : Fault} {p : Process}
      (hchain : EndsAt a K (afterChain handler x i next) (dispatch inner x (resume i)) e (.error f))
      (hhandler : Leads (handler.call (handlerFrame x i f)) p) :
      Course i a base K inner handler x next (before ++ e :: logged :: after)
        (K (p.andThen (unlessFailed (restIfMarked i next))))
  /-- The handler has returned. -/
  | handled {before between after : List Machine} {e logged e' : Machine} {f : Fault} {v : Json}
      {q : Process}
      (hchain : EndsAt a K (afterChain handler x i next) (dispatch inner x (resume i)) e (.error f))
      (hhandler :
        EndsAt a K (unlessFailed (restIfMarked i next)) (handler.call (handlerFrame x i f)) e'
        (.ok v))
      (hrest : GoesOn K next (Resumed i a e.joins.length between) q) :
      Course i a base K inner handler x next
        (before ++ e :: logged :: (between ++ e' :: after)) q
  /-- The handler has failed. -/
  | failed {before between after : List Machine} {e logged e' : Machine} {f g : Fault}
      {q : Process}
      (hchain : EndsAt a K (afterChain handler x i next) (dispatch inner x (resume i)) e (.error f))
      (hhandler :
        EndsAt a K (unlessFailed (restIfMarked i next)) (handler.call (handlerFrame x i f)) e'
        (.error g))
      (hleaves : Leads (K (raised g)) q) :
      Course i a base K inner handler x next
        (before ++ e :: logged :: (between ++ e' :: after)) q

theorem goesOn_of_marked {e : Machine} {after : List Machine} {next : Process} {asked : Prop}
    (he : Reachable e) (hK : Surrounds K) (hfocus : e.focus = some (a, K (restIfMarked i next)))
    (hmarked : e.world.marked i = true ↔ asked) (hlater : Trace e (e :: after) m')
    (hq : m'.focus = some (a, q)) : GoesOn K next asked q := by
  obtain ⟨hnext, hlater⟩ := hlater.read hK hfocus
  have hleads := (he.of_reaches (.single hnext)).leads (.inl rfl) hlater.reaches hq
  by_cases hasked : asked
  · rw [if_pos (hmarked.mpr hasked)] at hleads
    exact .inl ⟨hasked, hleads⟩
  · rw [if_neg fun hset => hasked (hmarked.mp hset)] at hleads
    exact .inr ⟨hasked, hleads⟩

/-- The handler is called with the mark not set, and nobody else has a right to the mark. -/
theorem MarkedAt.watched_handler {e : Machine} {before : List Machine}
    (h : MarkedAt i a base before e) (hfocus : e.focus = some (a, q)) (handler : Script) (x : Nat)
    (f : Fault) (notice : Notice) : ∃ place, Watched i a
      (K ((handler.call (handlerFrame x i f)).andThen k)) (handler.call (handlerFrame x i f))
      { e with
        world := (e.world.setMark i false).log notice
        focus := some (a, K ((handler.call (handlerFrame x i f)).andThen k)) } place := by
  obtain ⟨place, hplaced, hothers⟩ := h.others
  have hmarks : ((e.world.setMark i false).log notice).marks.length = e.world.marks.length :=
    List.length_set
  refine ⟨place, hplaced.goesOn hfocus _ _, rfl, ⟨.setting i, ⟨?_, nofun⟩, ?_⟩, fun b hb => ?_, ?_⟩
  · exact hmarks.symm ▸ h.lt
  · have hframe : LastingFrame (handlerFrame x i f) (.setting i) e.guards.length
        e.world.marks.length := by
      rintro _ ⟨⟩
      exact lasting_resume (.inl rfl)
    exact (lasting_script hframe handler).sound hmarks.ge
  · exact (hothers b hb).goesOn hb fun hlater => by rwa [hmarks]
  · simp [World.log, World.setMark, World.marked, List.getElem?_set_self h.lt]

/-- The chain is called with a mark that nobody else has a right to. -/
theorem Reachable.watched_chain (hm : Reachable m) (hfocus : m.focus = some (a, q))
    (inner x : Nat) :
    ∃ place, Watched m.world.marks.length a
      (K ((dispatch inner x (resume m.world.marks.length)).andThen k))
      (dispatch inner x (resume m.world.marks.length))
      { m with
        world := m.world.addMark
        focus := some (a, K ((dispatch inner x (resume m.world.marks.length)).andThen k)) }
      place := by
  obtain ⟨place, huniform⟩ := hm.uniform
  have hmarks : m.world.addMark.marks.length = m.world.marks.length + 1 := by simp [World.addMark]
  refine ⟨place, huniform.placed.goesOn hfocus _ _, rfl,
    ⟨.setting m.world.marks.length, ⟨?_, Set.notMem_empty _⟩, ?_⟩,
    fun b hb => ?_, ?_⟩
  · exact hmarks.symm ▸ Nat.lt_succ_self _
  · exact (lasting_dispatch (.resume (.inl rfl)) (lasting_resume (.inl rfl)) inner x).sound
      (Nat.le_refl _)
  · refine (huniform.obeys b).goesOn hb ?_
    rintro p ⟨A, hA, hp⟩
    obtain ⟨hsets, howns⟩ := hA _ (Nat.le_refl _)
    exact ⟨A, ⟨hmarks.symm ▸ Nat.lt_succ_self _, hsets, howns⟩,
      hp.mono A.le_refl (Nat.le_refl _) (hmarks.symm ▸ Nat.le_succ _)⟩
  · simp [World.addMark, World.marked]

/-- Wherever a boundary is reached and however the run goes on: its process makes the mark, in two
steps, and from then on it is at one of the points of its course. -/
theorem boundary_course (hm : Reachable m) (hK : Surrounds K) {inner x : Nat} {handler : Script}
    {next : Process} (hfocus : m.focus = some (a, K (Process.boundary inner handler x next)))
    (hrun : Trace m past m') (hq : m'.focus = some (a, q)) :
    past.length < 2 ∨ ∃ s s' since, past = s :: s' :: since ∧
      Course m.world.marks.length a m.joins.length K inner handler x next since q := by
  rcases past with _ | ⟨s, _ | ⟨s', since⟩⟩
  · exact .inl (by simp)
  · exact .inl (by simp)
  refine .inr ⟨s, s', since, rfl, ?_⟩
  rw [boundary_eq] at hfocus
  -- the two steps that make the mark
  obtain ⟨rfl, -⟩ := hrun.uncons
  obtain ⟨hnext, hread⟩ := hrun.read hK hfocus
  obtain ⟨rfl, -⟩ := hread.uncons
  obtain ⟨hnext', hsince⟩ := hread.write hK rfl
  have hstart := (hm.of_reaches (.single hnext)).of_reaches (.single hnext')
  obtain ⟨place, hwatched⟩ := hm.watched_chain (K := K)
    (k := afterChain handler x s.world.marks.length next) hfocus inner x
  rcases hwatched.of_trace hK hsince with
    hprotecting | ⟨before, e, after, o, rfl, hlater, hbefore, hchain, hmark⟩
  · obtain ⟨p, hp, rfl⟩ := hprotecting q hq
    exact .protecting hp
  have he : Reachable e := hstart.of_reaches hbefore.reaches
  cases o with
  | ok v => exact .returned hchain (goesOn_of_marked he hK hchain.focus hmark.iff hlater hq)
  | error f =>
    rcases after with _ | ⟨logged, after⟩
    · exact .caught hchain
    -- the two steps that take the mark back and log the failure
    obtain ⟨hnext, hwrite⟩ := hlater.write hK hchain.focus
    obtain ⟨rfl, -⟩ := hwrite.uncons
    obtain ⟨hnext', hhandling⟩ := hwrite.write hK rfl
    have hstart := (he.of_reaches (.single hnext)).of_reaches (.single hnext')
    obtain ⟨place, hwatched⟩ := hmark.watched_handler (K := K)
      (k := unlessFailed (restIfMarked s.world.marks.length next)) hchain.focus handler x f
      (.boundaryCaught f)
    rcases hwatched.of_trace hK hhandling with
      hrunning | ⟨between, e', after, o, rfl, hlater, hbetween, hhandler, hmark⟩
    · obtain ⟨p, hp, rfl⟩ := hrunning q hq
      exact .handling hchain hp
    have he' : Reachable e' := hstart.of_reaches hbetween.reaches
    cases o with
    | ok v =>
      exact .handled hchain hhandler (goesOn_of_marked he' hK hhandler.focus hmark.iff hlater hq)
    | error g =>
      exact .failed hchain hhandler (he'.leads (.inl hhandler.focus) hlater.reaches hq)

/-- A handler that notes the failure and resumes. -/
def recovering : Script := { actions := [.noteFailure, .next], plain := false }

/-- A chain that resumes and then fails, within a boundary, and a rest that notes a value. -/
def recoveringWorld : World :=
  (Build.outcome
    (do
      let id ← Build.composerOf []
      let _ ← Build.boundary id recovering
        [.link (.script { actions := [.next, .throw { kind := .plain .value, value := .str "boom" }]
                          plain := false })]
      Build.use id [.link (.script { actions := [.note (.str "rest")], plain := false })])
    { client := none, me := default, contexts := [{ update := .obj [], me := default }] }).2

/-- The chain fails, the handler gets the failure and resumes, and the rest of the chain runs. -/
theorem boundary_course_recovering : (∃ K since,
      Course 0 (.root 0) 0 K 1 recovering 0 (once 0 (dispatch 3 0 leaf)) since (value .null)) ∧
    (run 25 (started recoveringWorld 0)).world.events =
      [.failed (.failure (.raised .value (.str "boom")) (some 0)) .null, .note (.str "rest")] := by
  obtain ⟨k, hfocus⟩ : ∃ k, (run 9 (started recoveringWorld 0)).focus = some (.root 0,
      (Process.boundary 1 recovering 0 (once 0 (dispatch 3 0 leaf))).andThen k) := ⟨_, rfl⟩
  have hrun := trace_run (run 9 (started recoveringWorld 0)) 16 (by decide +kernel)
  have hq : (run 16 (run 9 (started recoveringWorld 0))).focus = some (.root 0, value .null) := rfl
  rcases boundary_course (reachable_run_started recoveringWorld 0 9) (.andThen k .hole) hfocus hrun
    hq
    with hshort | ⟨_, _, since, -, hcourse⟩
  · simp at hshort
  · exact ⟨⟨_, since, hcourse⟩, rfl⟩

end Machine

end UpdateDispatch
