import UpdateDispatch.Proofs.Dispatch.Access
import UpdateDispatch.Proofs.Dispatch.KeepsMarks
import UpdateDispatch.Proofs.Dispatch.Scripting

/-!
# Chains are sound

Every link that is given a continuation of a chain touches only guards and marks that it has a right
to (`Process.lasting_call`), and so do the run of a chain and the handling of updates. No step leads
out of soundness (`Trait.upheld_sound`), so in every `Machine.Reachable` state all processes are
sound (`Machine.Reachable.uniform`).

`Trait.guarded` and `Trait.foreign` are the two sides of a boundary: those that may set its mark and
those that cannot touch it.
-/

namespace UpdateDispatch

open Relation

/-! ## Scripts -/

namespace Process

variable {p q : Process} {A B : Access} {g g' marks marks' : Nat} {w : World}

theorem lasting_building {α : Type} {b : Build α} {k : α → Process} (hb : b.KeepsMarks)
    (hk : ∀ a, Lasting (k a) A g marks) : Lasting (building b k) A g marks := by
  intro g' w hg hw
  have hmarks := hb w
  simp only [building, Sound]
  rcases houtcome : b.outcome w with ⟨f | a, w'⟩
  · rw [houtcome] at hmarks
    exact .inr ⟨Access.allows_of_marks hmarks, trivial⟩
  · rw [houtcome] at hmarks
    have hw' : marks ≤ w'.marks.length := hw.trans_eq (congrArg List.length hmarks).symm
    exact .inr ⟨Access.allows_of_marks hmarks, hk a g' w' hg hw'⟩

/-- The continuation of a frame, if there is one, may be called at any time. -/
def LastingFrame (e : Frame) (A : Access) (g marks : Nat) : Prop :=
  ∀ p, e.next = some p → Lasting p A g marks

/-- Scripts touch no guards, and no marks either. -/
theorem acting_lasting :
    Acting {} (fun p _ => Lasting p A g marks) fun p _ => Lasting p A g marks where
  value := lasting_value
  raised _ := lasting_raised _
  pause := .pause
  record _ _ hp := hp.record _
  context _ hk := lasting_read fun w _ => hk w w (by simp_all)
  setContext _ c hp := hp.write fun _ => Access.allows_of_marks rfl
  deferred := lasting_deferred_iff.mpr
  log _ _ hp := hp.log _
  client hk := lasting_read fun w _ => hk w w rfl
  andThen hp hk := hp.andThen fun o => hk o o (.refl o)
  thenCalled := .thenCalled
  dropping hp := hp.onCall fun {_ _ _ r} _ _ _ _ => by
    cases r with
    | raised f => exact lasting_raised f
    | value v | awaitable q => exact lasting_done
  registering _ := lasting_building (Build.keepsMarks_step _) fun _ => lasting_done
  next hp := hp
  missing := lasting_raised
  twice hp := .both hp hp fun _ => lasting_done.record _

/-- A scripted function that was given a lasting continuation. -/
theorem lasting_script {e : Frame} (he : LastingFrame e A g marks) (s : Script) :
    Lasting (s.call e) A g marks :=
  acting_lasting.script (Frame.same_self (fun _ => rfl) he) fun a _ => a.admitted

/-- What a choice makes, it makes without touching marks. -/
theorem paired_keepsMarks (c : Choice) : c.Paired {} (fun b _ => b.KeepsMarks) c := by
  cases c with
  | branch p negated yes no =>
    exact .branch p.admitted (Build.keepsMarks_pure yes) (Build.keepsMarks_pure no)
  | route router handlers fallback =>
    exact .route router.admitted (Build.keepsMarks_pure fallback) fun key => Build.keepsMarks_pure _
  | table factory specs default => exact .table factory.admitted fun v => Build.keepsMarks_spec _

/-! ## Links -/

theorem lasting_leaf : Lasting leaf A g marks := lasting_deferred_iff.mpr lasting_done

theorem lasting_resume {mark : Nat} (h : mark ∈ A.sets ∨ mark ∈ A.owns) :
    Lasting (resume mark) A g marks :=
  lasting_deferred_iff.mpr <| lasting_done.write fun _ =>
    Access.allows_setMark (h.symm.imp id fun h => ⟨h, rfl⟩)

theorem lasting_dispatch {next : Process} (hhanded : Handed A g next)
    (hnext : Lasting next A g marks) (id x : Nat) : Lasting (dispatch id x next) A g marks :=
  lasting_deferred_iff.mpr <| lasting_read fun _ _ =>
    .enter hnext hhanded fun o => (lasting_ended o).ignored

theorem Lasting.once {rest : Process} (h : Lasting rest A g marks) {guard : Nat}
    (hguard : guard < g) : Lasting (once guard rest) A g marks := by
  intro g' w hg hw
  refine ⟨Nat.lt_of_lt_of_le hguard hg, fun used => ?_⟩
  cases used with
  | true => trivial
  | false => exact h.awaited g' w hg hw

theorem lasting_concat {first second : Nat → Process → Process} {x : Nat} {next : Process}
    (hfirst : ∀ {g' n}, g ≤ g' → Handed A g' n → Lasting n A g' marks →
      Lasting (first x n) A g' marks)
    (hsecond : Lasting (second x next) A g marks) :
    Lasting (Process.concat first second x next) A g marks := by
  refine lasting_deferred_iff.mpr fun g' w hg hw guard hguard => ?_
  have hsecond : Lasting (second x next) A (guard + 1) marks :=
    hsecond.mono A.le_refl (by omega) (Nat.le_refl _)
  exact (hfirst (by omega) (.once (Nat.lt_succ_self guard))
    (hsecond.once (Nat.lt_succ_self guard))).ignored _ w (Nat.le_refl _) hw

theorem lasting_joined (s : Settled) : Lasting (joined s) A g marks :=
  acting_lasting.joined (fun _ _ => trivial) (.refl s)

theorem lasting_fork {next : Process} (hnext : Lasting next A g marks) (side x : Nat) :
    Lasting (Process.fork side x next) A g marks := by
  refine hnext.onCall fun {B g' marks' r} _ _ _ hr => ?_
  have hbranch : Lasting (dispatch side x leaf) B g' marks' :=
    lasting_dispatch .leaf lasting_leaf side x
  cases r with
  | raised f => exact lasting_raised f
  | value v => exact .both (lasting_value v) hbranch lasting_joined
  | awaitable rest => exact .both (hr rest rfl) hbranch lasting_joined

theorem lasting_boundary {next : Process} (hnext : Lasting next A g marks) (inner : Nat)
    (handler : Script) (x : Nat) : Lasting (Process.boundary inner handler x next) A g marks := by
  intro g' w hg hw
  refine .inl ⟨rfl, ?_⟩
  -- from here on the new mark is the process's own
  obtain ⟨B, hB⟩ : ∃ B, B = A.own w.marks.length := ⟨_, rfl⟩
  have hown : w.marks.length ∈ B.owns := hB ▸ Set.mem_insert _ _
  have hnext : Lasting next B g marks :=
    hnext.mono (hB ▸ A.le_own _) (Nat.le_refl _) (Nat.le_refl _)
  have hrest : Lasting (restIfMarked w.marks.length next) B g marks := by
    refine lasting_read fun w' _ => ?_
    split
    · exact hnext.ignored
    · exact lasting_done
  have hresume : Lasting (resume w.marks.length) B g marks := lasting_resume (.inr hown)
  have hinner : Lasting (dispatch inner x (resume w.marks.length)) B g marks :=
    lasting_dispatch (.resume (.inr hown)) hresume inner x
  rw [← hB]
  refine (hinner.andThen fun o => ?_) g' w.addMark hg (hw.trans (by simp [World.addMark]))
  exact acting_lasting.afterChain _ w.marks.length _ next (fun _ _ => trivial)
    (fun a _ => a.admitted) rfl hresume
    (fun hp => hp.write fun _ => Access.allows_setMark (.inl hown)) hrest (.refl o)

/-- A link that is given a continuation of a chain. -/
theorem lasting_call {x : Nat} : (l : Link) → {g : Nat} → {next : Process} → Handed A g next →
    Lasting next A g marks → Lasting (l.call x next) A g marks
  | .pass, _, _, _, hnext => hnext
  | .script s, _, _, _, hnext => by
    refine lasting_script ?_ s
    rintro _ ⟨⟩
    exact hnext
  | .composer id, _, _, hhanded, hnext => lasting_dispatch hhanded hnext id x
  | .concat first second, _, _, hhanded, hnext =>
    lasting_concat (fun _ hhanded hnext => lasting_call first hhanded hnext)
      (lasting_call second hhanded hnext)
  | .lazily c, _, _, hhanded, hnext =>
    lasting_deferred_iff.mpr <| acting_lasting.pick_alone (paired_keepsMarks c) rfl fun b hb =>
      lasting_building (hb.bind Build.keepsMarks_compose) fun _ =>
        .enter hnext hhanded fun o => (lasting_ended o).ignored
  | .fork side, _, _, _, hnext => lasting_deferred_iff.mpr (lasting_fork hnext side x)
  | .boundary inner handler, _, _, _, hnext =>
    lasting_deferred_iff.mpr (lasting_boundary hnext inner handler x)

theorem lasting_run (l : Link) (x : Nat) : Lasting (l.run x) A g marks :=
  (lasting_call l .leaf lasting_leaf).ignored

/-! ## Updates -/

theorem lasting_withBot {id : Nat} {member : String} {k : World → BotState → Process}
    (hk : ∀ w b, Lasting (k w b) A g marks) : Lasting (Bot.withBot id member k) A g marks := by
  refine lasting_read fun w _ => ?_
  split
  · exact hk w _
  · exact lasting_raised _

theorem lasting_handleUpdate (id : Nat) (update : Json) :
    Lasting (Bot.handleUpdate id update) A g marks := by
  refine lasting_withBot fun w b => ?_
  split
  · exact lasting_raised _
  split
  · exact lasting_raised _
  refine Lasting.log ?_ _
  split
  · exact lasting_raised _
  refine ((lasting_run _ _).andThen fun o => ?_).write fun _ => Access.allows_of_marks rfl
  cases o with
  | ok v => exact lasting_value _
  | error f => exact (lasting_raised _).log _

theorem lasting_report (id : Nat) (failure : Fault) :
    Lasting (Bot.report id failure) A g marks := by
  refine lasting_withBot fun w b => ?_
  split
  · exact lasting_script (by rintro _ ⟨⟩) _
  · refine lasting_deferred_iff.mpr ?_
    exact acting_lasting.defaultHandler (fun _ _ => trivial) (.refl failure)
      (rel_self fun _ _ => rfl)

theorem lasting_handleUpdates (id : Nat) (updates : List Json) :
    Lasting (Bot.handleUpdates id updates) A g marks :=
  acting_lasting.handleUpdates (fun _ => trivial) (fun hx => hx) id id (lasting_handleUpdate id)
    (lasting_report id) updates

end Process

/-! ## Runs -/

namespace Trait

open Process Machine

/-- A limit to the rights of processes. It is kept when there are more marks, and by a process that
makes one. -/
structure Limit where
  admits : Nat → Access → Prop
  grows : ∀ {marks marks' A}, admits marks A → marks ≤ marks' → admits marks' A
  owns : ∀ {marks A}, admits marks A → admits (marks + 1) (A.own marks)

/-- A process that is sound with rights within a limit. -/
def sound (L : Limit) : Trait where
  now g w p := ∃ A, L.admits w.marks.length A ∧ Sound p A g w
  later g marks p := ∃ A, L.admits marks A ∧ Lasting p A g marks
  mono := by
    rintro g g' marks marks' p ⟨A, hA, hp⟩ hg hm
    exact ⟨A, L.grows hA hm, hp.mono A.le_refl hg hm⟩
  of_later := by
    rintro g w p ⟨A, hA, hp⟩
    exact ⟨A, hA, hp.sound (Nat.le_refl _)⟩

/-- No step leads out of soundness. -/
theorem upheld_sound (L : Limit) : (sound L).Upheld := by
  rintro n w p ⟨A, hA, hp⟩
  constructor
  · intro n' w' q hruns
    cases hruns with
    | deferred => exact ⟨⟨A, hA, hp n w (Nat.le_refl _) (Nat.le_refl _)⟩, Nat.le_refl _⟩
    | read => exact ⟨⟨A, hA, hp⟩, Nat.le_refl _⟩
    | write =>
      rcases hp with ⟨rfl, hp⟩ | ⟨hallows, hp⟩
      · have hmarks : w.addMark.marks.length = w.marks.length + 1 := by simp [World.addMark]
        exact ⟨⟨_, hmarks ▸ L.owns hA, hp⟩, hmarks ▸ Nat.le_succ _⟩
      · exact ⟨⟨A, hallows.length ▸ hA, hp⟩, hallows.length.ge⟩
    | newGuard => exact ⟨⟨A, hA, hp n (Nat.le_refl _)⟩, Nat.le_refl _⟩
    | checkGuard used => exact ⟨⟨A, hA, hp.2 used⟩, Nat.le_refl _⟩
    | useGuard => exact ⟨⟨A, hA, hp⟩, Nat.le_refl _⟩
    | @enter l x next k =>
      have hnext : Lasting next A n w.marks.length := fun g' w' hg hw => (hp.2 g' w' hg hw).1
      have hk : ∀ o, Lasting (k o) A n w.marks.length :=
        fun o g' w' hg hw => (hp.2 g' w' hg hw).2 o
      exact ⟨⟨A, hA, ((lasting_call l hp.1 hnext).sound (Nat.le_refl _)).andThen hk⟩,
        Nat.le_refl _⟩
  · intro j a q ha hparks
    cases hparks with
    | pause => exact ⟨A, hA, hp⟩
    | join s => exact ⟨A, hA, fun g w' hg hw => (hp g w' hg hw).2.2 s⟩
    | left | right => exact absurd rfl (ha _)
  · intro j a left q ha hparks
    cases hparks with
    | pause | join s => exact absurd rfl (ha _)
    | left => exact ⟨A, hA, fun g w' hg hw => (hp g w' hg hw).1⟩
    | right => exact ⟨A, hA, fun g w' hg hw => (hp g w' hg hw).2.1⟩
  · rintro q k rfl
    exact hp

/-- No rights to marks that do not exist yet. -/
def Limit.existing : Limit where
  admits marks A := ∀ i, marks ≤ i → i ∉ A.sets ∧ i ∉ A.owns
  grows h hle i hi := h i (Nat.le_trans hle hi)
  owns h i hi := ⟨(h i (Nat.le_of_succ_le hi)).1,
    Access.notMem_own (h i (Nat.le_of_succ_le hi)).2 (Nat.ne_of_gt hi)⟩

/-- The mark `i` exists, and it may be set, but not changed at will. -/
def Limit.setting (i : Nat) : Limit where
  admits marks A := i < marks ∧ i ∉ A.owns
  grows h hle := ⟨Nat.lt_of_lt_of_le h.1 hle, h.2⟩
  owns h := ⟨Nat.lt_succ_of_lt h.1, Access.notMem_own h.2 (Nat.ne_of_lt h.1)⟩

/-- The mark `i` exists, and there are no rights to it. -/
def Limit.without (i : Nat) : Limit where
  admits marks A := i < marks ∧ i ∉ A.sets ∧ i ∉ A.owns
  grows h hle := ⟨Nat.lt_of_lt_of_le h.1 hle, h.2⟩
  owns h := ⟨Nat.lt_succ_of_lt h.1, h.2.1, Access.notMem_own h.2.2 (Nat.ne_of_lt h.1)⟩

/-- A process that is sound. -/
abbrev trusted : Trait := sound .existing

/-- A process that may set a mark, but does not own it. -/
abbrev guarded (i : Nat) : Trait := sound (.setting i)

/-- A process that has no rights to a mark. -/
abbrev foreign (i : Nat) : Trait := sound (.without i)

end Trait

namespace Process

/-- What a dispatcher is asked to do: to run a chain for a context, or to handle updates. -/
inductive Dispatches : Process → Prop
  | run (l : Link) (x : Nat) : Dispatches (l.run x)
  | handleUpdate (id : Nat) (update : Json) : Dispatches (Bot.handleUpdate id update)
  | handleUpdates (id : Nat) (updates : List Json) : Dispatches (Bot.handleUpdates id updates)

theorem Dispatches.lasting {p : Process} (h : Dispatches p) (A : Access) (g marks : Nat) :
    Lasting p A g marks := by
  cases h with
  | run l x => exact lasting_run l x
  | handleUpdate id update => exact lasting_handleUpdate id update
  | handleUpdates id updates => exact lasting_handleUpdates id updates

theorem Dispatches.trusted {p : Process} (h : Dispatches p) (g marks : Nat) :
    Trait.trusted.later g marks p :=
  ⟨.none, fun _ _ => ⟨Set.notMem_empty _, Set.notMem_empty _⟩, h.lasting .none g marks⟩

end Process

namespace Machine

open Process

/-- A state that comes about when chains are run and updates are handled side by side, in any state
of the dispatcher and with the turns taken in any order. -/
def Reachable (m : Machine) : Prop :=
  ∃ w ps, (∀ p ∈ ps, Dispatches p) ∧ ReflTransGen Next (ofRoots w ps) m

theorem Reachable.uniform {m : Machine} (h : Reachable m) :
    ∃ place, Uniform Trait.trusted m place := by
  obtain ⟨w, ps, hps, hrun⟩ := h
  have hstart : Uniform Trait.trusted (ofRoots w ps) (startPlace ps.length) :=
    ⟨placed_ofRoots w ps, obeys_ofRoots fun p hp => (hps p hp).trusted _ _⟩
  exact hstart.of_reaches (Trait.upheld_sound _) hrun

theorem Reachable.sound {m : Machine} (h : Reachable m) {a : Owner} {p : Process}
    (hfocus : m.focus = some (a, p)) : ∃ A, Sound p A m.guards.length m.world := by
  obtain ⟨place, huniform⟩ := h.uniform
  obtain ⟨A, -, hp⟩ := (huniform.obeys a).focus hfocus
  exact ⟨A, hp⟩

theorem Reachable.of_reaches {m m' : Machine} (h : Reachable m) (hrun : ReflTransGen Next m m') :
    Reachable m' := by
  obtain ⟨w, ps, hps, hstart⟩ := h
  exact ⟨w, ps, hps, hstart.trans hrun⟩

/-- A process that runs, or has a turn to, is later seen as something that it leads to. -/
theorem Reachable.leads {m m' : Machine} {a : Owner} {p q : Process} (hm : Reachable m)
    (hp : m.focus = some (a, p) ∨ .resume a p ∈ m.ready) (hrun : ReflTransGen Next m m')
    (hq : m'.focus = some (a, q)) : Leads p q := by
  obtain ⟨place, huniform⟩ := hm.uniform
  obtain ⟨halive, hobeys⟩ :
      place a ≠ .gone ∧ Obeys (Trait.trusted.Along (fun p => p) p) m place a := by
    rcases hp with hfocus | hturn
    · exact ⟨by rw [huniform.placed.running hfocus]; exact nofun,
        huniform.placed.obeys_of_focus hfocus ⟨(huniform.obeys a).focus hfocus, p, rfl, .refl⟩⟩
    · have hqueued : place a = .queued := huniform.placed.queued hturn
      exact ⟨by rw [hqueued]; exact nofun,
        huniform.placed.obeys_of_turn hturn
          ⟨(huniform.obeys a).rests (.ready hturn), p, rfl, .refl⟩⟩
  rcases huniform.along (Trait.upheld_sound _) encloses_alone halive hobeys hrun hq with
    ⟨q, rfl, hleads⟩ | ⟨_, _, _, _, _, hstop, _⟩
  · exact hleads
  · exact hstop.elim

/-- A composer that is run for the first context. -/
def started (w : World) (id : Nat) : Machine := ofRoots w [(Link.composer id).run 0]

theorem reachable_run_started (w : World) (id n : Nat) : Reachable (run n (started w id)) :=
  ⟨w, _, by simpa using .run (.composer id) 0, reaches_run n (started w id)⟩

end Machine

end UpdateDispatch
