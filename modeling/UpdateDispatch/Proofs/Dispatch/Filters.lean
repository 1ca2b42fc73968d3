import UpdateDispatch.Proofs.Dispatch.Gates
import UpdateDispatch.Proofs.Dispatch.Listeners

/-!
# What runs below a filter

A filter registers a gate (`Gate.exists_registered`). Each time the gate is reached its probe is
evaluated once, and the gate goes on as the answer says (`Gate.course`). Its probe is asked only
then, and what can be got to through the gate only, which is all that is not `Gate.Bypassed`, runs
only in a call of the gate whose answer was accepted, for the context of that call (`Gate.governs`).
-/

namespace UpdateDispatch

open Relation Process

/-! ## First steps -/

namespace Realm

variable {R : Realm} {p q : Process}

/-- What a process does first is allowed: the link that it enters, or the value that it notes. -/
structure Allows (R : Realm) (q : Process) : Prop where
  enters : ∀ {l x next k}, q = .enter l x next k → R.enters l x
  notes : ∀ {u p}, q = .write (World.record (.note u)) p → R.notes u

theorem Stays.allows (h : R.Stays p) : R.Allows p where
  enters heq := by
    subst heq
    exact h.1
  notes heq := by
    subst heq
    exact h.1 _ rfl

/-- A process that is waited for does the same as the whole. -/
theorem Stays.allows_await {K : Process → Process} (h : R.Stays p) (hK : Surrounds K)
    (k : Outcome → Process) (hend : ¬ ∃ o, Ended p.strip o) : R.Allows (K (p.andThen k)) := by
  have hlifted := (hK.comp (.andThen k .hole)).lifted fun hstop =>
    hend (ended_of_stopped_strip hstop)
  have hallows := (h.of_awaits (awaits_strip p)).allows
  rw [strip_andThen] at hlifted
  generalize K (p.andThen k) = q at hlifted
  generalize p.strip = p' at hlifted hallows
  constructor
  · rintro l x next k rfl
    cases hlifted
    exact hallows.enters rfl
  · rintro u p rfl
    cases hlifted
    exact hallows.notes rfl

end Realm

namespace Gate

open Machine

variable {g : Gate} {Z : Part → Prop} {V : Visit} {m m' r s : Machine} {place : Owner → Place}
  {states past since : List Machine} {a b : Owner} {p q : Process} {v : Json} {base : Nat}

/-- What the running process does is allowed outside, by the probe in a call that asks it, or for
the context of a call that was accepted. -/
theorem Guarded.allows (h : Guarded g Z past m place) (hfocus : m.focus = some (b, q)) :
    (g.outside Z).Allows q ∨
      (∃ V : Visit, V.owner = b ∧ Asking g V (past ++ [m]) ∧ (Realm.probing g.probe).Allows q) ∨
      ∃ V v base, Admits g Z V v base (past ++ [m]) m ∧ Below base m V.owner b ∧
        (Realm.about V.x).Allows q := by
  have hrunning : place b ≠ .gone := by
    rw [h.placed.running hfocus]
    exact nofun
  have hstands := ((h.obeys b).focus hfocus).2.normal hfocus fun heq => h.placed.born hrunning heq
  cases hstands with
  | outside h => exact .inl h.allows
  | @asking V p howner hasking hleads hstays hend _ _ _ =>
    exact .inr (.inl ⟨V, howner, hasking,
      hstays.allows_await (.andThen V.k .hole) (g.after V.x V.next) hend⟩)
  | @calling V v base p howner hcall hleads hstays hend _ =>
    exact .inr (.inr ⟨V, v, base, hcall, howner ▸ .self, hstays.allows_await .hole V.k hend⟩)
  | @below V v base _ hcall hbelow _ hstays =>
    exact .inr (.inr ⟨V, v, base, hcall, hbelow, hstays.allows⟩)

/-! ## The course of a gate -/

open Classical in
/-- How often the process of `a` notes a value in these states. -/
noncomputable def notings (a : Owner) (u : Json) (states : List Machine) : Nat :=
  states.countP fun s => ∃ q, s.focus = some (a, .write (World.record (.note u)) q)

theorem notings_append (a : Owner) (u : Json) (states states' : List Machine) :
    notings a u (states ++ states') = notings a u states + notings a u states' :=
  List.countP_append

/-- A process that has no right to note anything. -/
def silent : Realm where
  enters _ _ := False
  notes _ := False
  forks := False

theorem notings_of_silent {K : Process → Process} {k : Outcome → Process} {p₀ : Process}
    (hK : Surrounds K) (hp : silent.Stays p₀)
    (h : Keeps a (fun p => K (p.andThen k)) (Busy p₀) states) (u : Json) :
    notings a u states = 0 := by
  refine List.countP_eq_zero.mpr fun s hs hnotes => ?_
  obtain ⟨q, hq⟩ : ∃ q, s.focus = some (a, .write (World.record (.note u)) q) := by
    simpa using hnotes
  obtain ⟨p, heq, hleads, hend⟩ := h s hs _ hq
  have hstays := hp.of_leads (fun _ => trivial) (fun _ _ => not_false) hleads
  exact (hstays.allows_await hK k hend).notes heq.symm

/-- In these states the probe is asked and nothing else done, until it ends, and a value that it
notes is noted once. -/
structure Evaluates (g : Gate) (V : Visit) (states : List Machine) (e : Machine) (o : Outcome) :
    Prop where
  asking : Keeps V.owner (V.probing g) (Leads (g.probe.asked V.x)) states
  answer : EndsAt V.owner V.passing (g.after V.x V.next) (g.probe.asked V.x) e o
  once : ∀ u, g.probe.note = some u → notings V.owner u states = 1

/-- What the process can be at that calls a gate, after the states that were passed since the gate
was reached. -/
inductive Course (g : Gate) (V : Visit) : List Machine → Process → Prop
  /-- The probe is asked. -/
  | asking {states : List Machine} {p : Process} (hleads : Leads (g.probe.asked V.x) p)
      (hasking : Keeps V.owner (V.probing g) (Leads (g.probe.asked V.x)) states)
      (honce : ∀ u, g.probe.note = some u → notings V.owner u states ≤ 1) :
      Course g V states (V.probing g p)
  /-- The probe has answered, and the gate goes on with what is below it or passes. -/
  | answered {asking after : List Machine} {e : Machine} {v : Json} {q : Process}
      (heval : Evaluates g V asking e (.ok v))
      (hrest : Leads (V.passing (g.answered v V.x V.next)) q) :
      Course g V (asking ++ e :: after) q
  /-- The probe has failed, and the fault leaves the gate. -/
  | failed {asking after : List Machine} {e : Machine} {f : Fault} {q : Process}
      (heval : Evaluates g V asking e (.error f)) (hrest : Leads (V.k (.error f)) q) :
      Course g V (asking ++ e :: after) q

theorem notings_singleton {u : Json}
    (hnotes : m.focus = some (a, .write (World.record (.note u)) q)) : notings a u [m] = 1 := by
  classical
  exact List.countP_eq_length.mpr fun s hs => by
    rw [List.mem_singleton.mp hs]
    exact decide_eq_true_iff.mpr ⟨q, hnotes⟩

theorem pauses_eq (n : Nat) (q : Process) : pauses n q = (pauses n done).andThen fun _ => q := by
  induction n with
  | zero => rfl
  | succ n ih => exact congrArg Process.pause ih

/-- A process that notes nothing, in a run from where it stands: it has noted nothing yet, or it has
ended without. -/
theorem silent_keeps_or_ends (hs : Reachable s) {K : Process → Process} (hK : Surrounds K)
    {k : Outcome → Process} {p₀ : Process} (hp : silent.Stays p₀)
    (hfocus : s.focus = some (a, K (p₀.andThen k))) (hrun : Trace s past m)
    (hq : m.focus = some (a, q)) :
    ((∃ p, q = K (p.andThen k) ∧ Leads p₀ p) ∧
      Keeps a (fun p => K (p.andThen k)) (Leads p₀) past ∧ ∀ u, notings a u past = 0) ∨
    ∃ before e after o, past = before ++ e :: after ∧ Reachable e ∧ Trace e (e :: after) m ∧
      Keeps a (fun p => K (p.andThen k)) (Leads p₀) before ∧ (∀ u, notings a u before = 0) ∧
      EndsAt a K k p₀ e o := by
  obtain ⟨place, huniform⟩ := hs.uniform
  have hleads : ∀ {states}, Keeps a (fun p => K (p.andThen k)) (Busy p₀) states →
      Keeps a (fun p => K (p.andThen k)) (Leads p₀) states := fun h t ht q hq =>
    let ⟨p, heq, hbusy⟩ := h t ht q hq
    ⟨p, heq, hbusy.1⟩
  rcases huniform.keeps_or_ends (Trait.upheld_sound _) hK hfocus hrun with
    ⟨hkeeps, hend⟩ | ⟨before, e, after, o, rfl, hbefore, hlater, hkeeps, hend⟩
  · exact .inl ⟨hend q hq, hleads hkeeps, notings_of_silent hK hp hkeeps⟩
  · exact .inr ⟨before, e, after, o, rfl, hs.of_reaches hbefore.reaches, hlater, hleads hkeeps,
      notings_of_silent hK hp hkeeps, hend⟩

/-- What is left of a probe when it has suspended. -/
theorem probing_noted (g : Gate) (V : Visit) (p : Process) :
    V.probing g (p.andThen fun _ => g.probe.noted (g.probe.result V.x)) =
      V.passing (p.andThen fun _ =>
        (g.probe.noted (g.probe.result V.x)).andThen (g.after V.x V.next)) :=
  congrArg V.passing (andThen_andThen ..)

theorem asked_eq (p : Probe Condition) (x : Nat) :
    p.asked x = (pauses p.delay done).andThen fun _ => p.noted (p.result x) := pauses_eq ..

theorem leads_noted (p : Probe Condition) (q : Process) : Leads (p.noted q) q := by
  unfold Probe.noted
  split
  · exact .single (.runs (n := 0) (w := { client := none, me := default }) .write)
  · exact .refl

/-- The value that a probe is to note is noted in one step, and then it answers. -/
theorem exists_result (hs : Reachable s)
    (hfocus : s.focus = some (V.owner,
      V.passing ((g.probe.noted (g.probe.result V.x)).andThen (g.after V.x V.next))))
    (hrun : Trace s (s :: past) m) :
    ∃ states later s', s :: past = states ++ later ∧ Reachable s' ∧
      s'.focus = some (V.owner, V.passing ((g.probe.result V.x).andThen (g.after V.x V.next))) ∧
      Trace s' later m ∧ (∀ t ∈ states, t = s) ∧
      ∀ u, g.probe.note = some u → notings V.owner u states = 1 := by
  have hK : Surrounds fun p => V.passing (p.andThen (g.after V.x V.next)) :=
    .andThen V.k (.andThen _ .hole)
  rcases hnote : g.probe.note with _ | u
  · simp only [Probe.noted, hnote] at hfocus
    exact ⟨[], _, s, rfl, hs, hfocus, hrun, List.forall_mem_nil _, fun u hu => by cases hu⟩
  · simp only [Probe.noted, hnote] at hfocus
    obtain ⟨hnext, hlater⟩ := hrun.write (p := g.probe.result V.x) hK hfocus
    refine ⟨[s], past, _, rfl, hs.of_reaches (.single hnext), rfl, hlater,
      fun t ht => List.mem_singleton.mp ht, ?_⟩
    rintro _ ⟨⟩
    exact notings_singleton (hK.write _ _ ▸ hfocus)

/-- The rest of a call whose probe is about to note its value. -/
theorem course_noted {before : List Machine} (hs : Reachable s)
    (hfocus : s.focus = some (V.owner,
      V.passing ((g.probe.noted (g.probe.result V.x)).andThen (g.after V.x V.next))))
    (hnoted : Leads (g.probe.asked V.x) (g.probe.noted (g.probe.result V.x)))
    (hbefore : Keeps V.owner (V.probing g) (Leads (g.probe.asked V.x)) before)
    (hsilent : ∀ u, notings V.owner u before = 0) (hrun : Trace s (s :: past) m)
    (hq : m.focus = some (V.owner, q)) : Course g V (before ++ s :: past) q := by
  have hresult := hnoted.trans (leads_noted g.probe (g.probe.result V.x))
  obtain ⟨states, later, s', hsplit, hs', hfocus', hlater, hstates, honce⟩ :=
    exists_result hs hfocus hrun
  have hasking : Keeps V.owner (V.probing g) (Leads (g.probe.asked V.x)) (before ++ states) := by
    refine hbefore.append fun t ht q hq => ?_
    rw [hstates t ht, hfocus] at hq
    cases hq
    exact ⟨_, rfl, hnoted⟩
  have hcount : ∀ u, g.probe.note = some u → notings V.owner u (before ++ states) = 1 :=
    fun u hu => by rw [notings_append, hsilent, honce u hu]
  have hsince : ∀ p, Leads (g.probe.result V.x) p → ∃ p',
      V.passing (p.andThen (g.after V.x V.next)) = V.probing g p' ∧
        Leads (g.probe.asked V.x) p' := fun p hp => ⟨p, rfl, hresult.trans hp⟩
  rw [hsplit, ← List.append_assoc]
  have hK : Surrounds V.passing := .andThen V.k .hole
  rcases silent_keeps_or_ends hs' hK (Realm.stays_result _ _) hfocus' hlater hq with
    ⟨⟨p, rfl, hp⟩, hkeeps, hnotes⟩ | ⟨mid, e, after, o, rfl, he, hlast, hkeeps, hnotes, hend⟩
  · refine .asking (hresult.trans hp) (hasking.append (hkeeps.imp fun h => hsince _ h)) ?_
    exact fun u hu => by rw [notings_append, hcount u hu, hnotes]
  · have heval : Evaluates g V (before ++ states ++ mid) e o :=
      ⟨hasking.append (hkeeps.imp fun h => hsince _ h), ⟨hresult.trans hend.leads, hend.focus⟩,
        fun u hu => by rw [notings_append, hcount u hu, hnotes]⟩
    have hrest := he.leads (.inl hend.focus) hlast.reaches hq
    rw [← List.append_assoc]
    cases o with
    | ok v => exact .answered heval hrest
    | error f => exact .failed heval hrest

/-- Each time the gate is reached, its probe is evaluated once, and the gate goes on as the answer
says. -/
theorem course (hr : Reachable r)
    (hreach : r.focus = some (V.owner, .enter g.link V.x V.next V.k))
    (hrun : Trace r (r :: since) m) (hq : m.focus = some (V.owner, q)) : Course g V since q := by
  obtain ⟨-, s, hnext, hrun⟩ := hrun.uncons
  have hfocus : s.focus = some (V.owner, V.probing g (g.probe.asked V.x)) := by
    rw [hnext.eq_advance hreach]
    exact congrArg (fun p => some (V.owner, p.andThen V.k)) (g.call_eq V.x V.next)
  rw [asked_eq, probing_noted] at hfocus
  have hsuspended : ∀ {p}, Leads (pauses g.probe.delay done) p → ∃ p',
      V.passing (p.andThen fun _ => (g.probe.noted (g.probe.result V.x)).andThen
        (g.after V.x V.next)) = V.probing g p' ∧ Leads (g.probe.asked V.x) p' := fun hleads =>
    ⟨_, (probing_noted g V _).symm, asked_eq g.probe V.x ▸ leads_andThen hleads _⟩
  have hK : Surrounds V.passing := .andThen V.k .hole
  rcases silent_keeps_or_ends (hr.of_reaches (.single hnext)) hK (Realm.stays_done.pauses _)
      hfocus hrun hq with
    ⟨⟨p, rfl, hp⟩, hkeeps, hnotes⟩ | ⟨before, e, after, o, rfl, he, hlater, hkeeps, hnotes, hend⟩
  · obtain ⟨p', heq, hleads⟩ := hsuspended hp
    rw [heq]
    exact .asking hleads (hkeeps.imp fun h => hsuspended h) fun u _ => by rw [hnotes u]; simp
  · refine course_noted he hend.focus ?_ (hkeeps.imp fun h => hsuspended h) hnotes hlater hq
    rw [asked_eq]
    have hleads := leads_andThen hend.leads fun _ => g.probe.noted (g.probe.result V.x)
    cases o <;> exact hleads

/-! ## What the gate governs -/

/-- What can be got to from some parts in some states, other than through the gate. -/
inductive Bypassed (g : Gate) (states : List Machine) (roots : Part → Prop) : Part → Prop
  | root {part : Part} (h : roots part) : Bypassed g states roots part
  | step {a b : Part} {s : Machine} (h : Bypassed g states roots a) (hs : s ∈ states)
      (hholds : s.world.Holds a b) (hgate : ¬ g.Between s.world a b) : Bypassed g states roots b

variable {w : World} {ds : List Dispatch} {roots : Part → Prop} {part : Part}

/-- What is got to so is the least that has the roots and that nothing but the gate leads out of. -/
theorem Bypassed.of_closes (h : g.Bypassed states roots part) (hroots : ∀ part, roots part → Z part)
    (hZ : ∀ s ∈ states, g.Closes Z s.world) : Z part := by
  induction h with
  | root h => exact hroots _ h
  | step _ hs hholds hgate ih => exact hZ _ hs ih hholds hgate

theorem closes_bypassed (hs : s ∈ states) : g.Closes (g.Bypassed states roots) s.world :=
  fun _ _ ha hholds hgate => .step ha hs hholds hgate

/-- The process runs in a call of the gate whose answer was accepted, for a context, or it was
started in such a call. -/
def LetsThrough (g : Gate) (states : List Machine) (m : Machine) (b : Owner) (x : Nat) : Prop :=
  ∃ V v base, V.x = x ∧ Opened g V v base states ∧ Below base m V.owner b

/-- What the gate says of a process that runs after some states, if all is got to from the roots:
whose chains it enters and what it notes, what has come of each call of the gate, and that the probe
is asked in such a call only. -/
structure Governs (g : Gate) (roots : Part → Prop) (past : List Machine) (m : Machine) (b : Owner)
    (q : Process) : Prop where
  enters : ∀ {l y next k part}, q = .enter l y next k → l ≠ g.link → l.Has part →
    ¬ g.Bypassed past roots part → g.LetsThrough (past ++ [m]) m b y
  notes : ∀ {u p}, q = .write (World.record (.note u)) p → g.probe.note ≠ some u →
    (∀ part, g.Bypassed past roots part → ¬ part.Notes u) →
    ∃ x, g.LetsThrough (past ++ [m]) m b x
  evaluates : ∀ {before r since V}, past = before ++ r :: since → V.owner = b →
    r.focus = some (b, .enter g.link V.x V.next V.k) → Course g V since q
  asks : ∀ {u p}, q = .write (World.record (.note u)) p → g.probe.note = some u →
    (∀ part, g.Bypassed past (fun part => roots part ∨ part = .composer g.child) part →
      ¬ part.Notes u) →
    ∃ V : Visit, V.owner = b ∧ Asking g V (past ++ [m])

/-- The parts that dispatches start with. -/
def rootsOf (ds : List Dispatch) (part : Part) : Prop := ∃ d ∈ ds, d.Starts part

theorem exists_guarded (hrun : Trace (ofRoots w (ds.map Dispatch.process)) past m)
    (hroots : ∀ part, rootsOf ds part → roots part) :
    ∃ place, Guarded g (g.Bypassed past roots) past m place :=
  guarded_of_trace (fun d hd part hpart => .root (hroots part ⟨d, hd, hpart⟩)) hrun
    fun _ hs => closes_bypassed hs

/-- The gate says this of every process that runs, whatever was dispatched. -/
theorem governs (hrun : Trace (ofRoots w (ds.map Dispatch.process)) past m)
    (hfocus : m.focus = some (b, q)) : g.Governs (rootsOf ds) past m b q where
  enters {l y next k part} hq hl hpart hbypassed := by
    obtain ⟨place, hguarded⟩ := exists_guarded (g := g) hrun fun _ h => h
    rcases hguarded.allows hfocus with
      hallows | ⟨V, -, -, hallows⟩ | ⟨V, v, base, hcall, hbelow, hallows⟩
    · rcases hallows.enters hq with heq | hwithin
      · exact absurd heq hl
      · exact absurd (hwithin hpart) hbypassed
    · exact (hallows.enters hq).elim
    · exact ⟨V, v, base, (hallows.enters hq).symm, hcall.opened, hbelow⟩
  notes {u p} hq hne hu := by
    obtain ⟨place, hguarded⟩ := exists_guarded (g := g) hrun fun _ h => h
    rcases hguarded.allows hfocus with
      hallows | ⟨V, -, -, hallows⟩ | ⟨V, v, base, hcall, hbelow, -⟩
    · obtain ⟨part, hpart, hnotes⟩ := hallows.notes hq
      exact absurd hnotes (hu part hpart)
    · exact absurd (hallows.notes hq) hne
    · exact ⟨V.x, V, v, base, rfl, hcall.opened, hbelow⟩
  evaluates {before r since V} hpast howner hreach := by
    subst hpast howner
    obtain ⟨hbefore, hlater⟩ := hrun.drop
    refine course ⟨w, _, fun p hp => ?_, hbefore.reaches⟩ hreach hlater hfocus
    obtain ⟨d, -, rfl⟩ := List.mem_map.mp hp
    exact d.dispatches
  asks {u p} hq _ hu := by
    -- with the composer below the gate among the roots, no call leads anywhere else
    obtain ⟨place, hguarded⟩ : ∃ place, Guarded g
        (g.Bypassed past fun part => rootsOf ds part ∨ part = .composer g.child) past m place :=
      exists_guarded hrun fun _ h => .inl h
    rcases hguarded.allows hfocus with
      hallows | ⟨V, howner, hasking, -⟩ | ⟨V, v, base, hcall, -, -⟩
    · obtain ⟨part, hpart, hnotes⟩ := hallows.notes hq
      exact absurd hnotes (hu part hpart)
    · exact ⟨V, howner, hasking⟩
    · exact absurd (.root (.inr rfl)) hcall.beyond

/-! ## What is registered -/

/-- A gate that was registered on a composer: its link is the chain of a new composer, which is
appended, and it enters another new composer. -/
structure Registered (g : Gate) (id : Nat) (w w' : World) : Prop where
  fresh : g.child = w.composers.length
  link : w'.chain (g.child + 1) = g.link
  appended : w'.chain id = .concat (w.chain id) (.composer (g.child + 1))
  others : ∀ other < w.composers.length, other ≠ id → w'.chain other = w.chain other

theorem registered_of_filter {id child : Nat} {w w' : World} (hid : id < w.composers.length)
    {p : Probe Condition} {negated : Bool} {mw : List Middleware}
    (h : (Build.filter id p negated mw).outcome w = (.ok child, w')) :
    Registered ⟨p, negated, child⟩ id w w' := by
  obtain ⟨c, w₁, hcomposer, h⟩ := Build.exists_of_outcome_bind h
  obtain ⟨events, l, rfl, rfl⟩ := Build.exists_of_composerOf hcomposer
  obtain ⟨w₁, hw₁⟩ : ∃ w₁, w₁ = ({ w with events } : World).addComposer { chain := l } := ⟨_, rfl⟩
  have hlength : w₁.composers.length = w.composers.length + 1 := by simp [hw₁, World.addComposer]
  have hchain : ∀ other < w.composers.length, w₁.chain other = w.chain other := by
    intro other hother
    rw [hw₁]
    exact World.chain_addComposer_of_lt { w with events } _ hother
  have hid₁ : id < w₁.composers.length := hlength ▸ Nat.lt_succ_of_lt hid
  obtain ⟨rfl, rfl⟩ : child = w.composers.length ∧
      w' = w₁.hook id (Build.gate p negated w.composers.length) := by
    rw [hw₁]
    cases h
    exact ⟨rfl, rfl⟩
  refine ⟨rfl, ?_, ?_, fun other hother hne => ?_⟩
  · rw [← hlength]
    exact World.chain_hook_new hid₁
  · rw [World.chain_hook_self hid₁, hchain id hid, hlength]
  · rw [World.chain_hook_of_ne hid₁ (hlength ▸ Nat.lt_succ_of_lt hother) hne.symm,
      hchain other hother]

end Gate

/-- The registration of middleware for contexts of which a function holds, or does not hold. -/
def Registration.gated (negated : Bool) (p : Probe Listener) (mw : List Expr) : Registration :=
  if negated then .drop p mw else .filter p mw

namespace Gate

/-- What a filter returns stands below a gate: its probe is the function of the filter. -/
theorem exists_registered {id child : Nat} {w w' : World} (hid : id < w.composers.length)
    {negated : Bool} {p : Probe Listener} {mw : List Expr}
    (h : (Build.register id (.gated negated p mw)).outcome w = (.ok child, w')) :
    ∃ g : Gate, g.negated = negated ∧ g.child = child ∧ (p.build.outcome w).1 = .ok g.probe ∧
      g.Registered id w w' := by
  have hregister : Build.register id (.gated negated p mw) = (do
      let mw ← buildAll mw
      let p ← p.build
      Build.filter id p negated mw) := by
    cases negated <;> rfl
  rw [hregister] at h
  obtain ⟨mw, events, h⟩ :=
    Build.exists_of_sources_bind (fun hR => Build.respects_buildAll hR mw) h
  obtain ⟨probe, w₁, hprobe, h⟩ := Build.exists_of_outcome_bind h
  rw [Build.outcome_probe p _ w] at hprobe
  obtain ⟨hvalue, rfl⟩ := Prod.mk.inj hprobe
  refine ⟨⟨probe, negated, child⟩, rfl, rfl, hvalue, ?_⟩
  obtain ⟨hfresh, hlink, happended, hothers⟩ := registered_of_filter (w := { w with events }) hid h
  exact ⟨hfresh, hlink, happended, hothers⟩

/-- A filter registers a gate whose probe is its function, and of whatever is dispatched then, and
in whatever tree of composers, what can be got to through the gate only runs in a call of the gate
whose answer was accepted, for the same context. The answer is that of the probe, which is asked
once in each call of the gate, and not otherwise. -/
theorem filter_governs {id child : Nat} {w₀ w₁ : World} (hid : id < w₀.composers.length)
    {negated : Bool} {p : Probe Listener} {mw : List Expr}
    (hregister : (Build.register id (.gated negated p mw)).outcome w₀ = (.ok child, w₁)) :
    ∃ g : Gate, g.negated = negated ∧ g.child = child ∧ (p.build.outcome w₀).1 = .ok g.probe ∧
      g.Registered id w₀ w₁ ∧
      ∀ {w : World} {ds : List Dispatch} {past : List Machine} {m : Machine} {b : Owner}
        {q : Process}, Machine.Trace (Machine.ofRoots w (ds.map Dispatch.process)) past m →
        m.focus = some (b, q) → g.Governs (rootsOf ds) past m b q := by
  obtain ⟨g, hnegated, hchild, hprobe, hregistered⟩ := exists_registered hid hregister
  exact ⟨g, hnegated, hchild, hprobe, hregistered, fun hrun hfocus => governs hrun hfocus⟩

/-- A dispatcher with one composer and one context. -/
def plainWorld : World :=
  { client := none, me := default, composers := [{}], contexts := [default] }

/-- A function that suspends, notes that it was asked, and holds of every context. -/
def askedProbe : Probe Listener :=
  { delay := 1, note := some (.str "asked"), source := .constant (.bool true) }

/-- The composer with a filter. -/
def filteredWorld : World := ((Build.register 0 (.gated false askedProbe [])).outcome plainWorld).2

/-- The composer with a filter and a script below it, which was registered on the child. -/
def belowWorld : World :=
  ((Build.register 1 (.use [.script [.note (.str "below")] false])).outcome filteredWorld).2

/-- The gate of the filter. -/
def askedGate : Gate where
  probe := { delay := 1, note := some (.str "asked"), source := .constant (.bool true) }
  negated := false
  child := 1

/-- The script below the filter. -/
def belowScript : Script := { actions := [.note (.str "below")], plain := false }

/-- A run of the composer for the context. -/
def belowRun (k : Nat) : Machine :=
  Machine.run k (Machine.ofRoots belowWorld [(Link.composer 0).run 0])

theorem belowRun_composers : ∀ s ∈ (List.range 20).map belowRun,
    s.world.composers = belowWorld.composers := by
  intro s hs
  obtain ⟨k, hk, rfl⟩ := List.mem_map.mp hs
  have hk := List.mem_range.mp hk
  interval_cases k <;> rfl

/-- Without the gate an update gets to the composer, and to the one that holds the gate. -/
theorem closes_belowWorld {w : World} (hw : w.composers = belowWorld.composers) :
    askedGate.Closes (fun part => part = .composer 0 ∨ part = .composer 2) w := by
  have hroot : w.chain 0 = .concat .pass (.composer 2) := by
    rw [World.chain, hw]
    rfl
  have hlink : w.chain 2 = askedGate.link := by
    rw [World.chain, hw]
    rfl
  have hbots : w.bot? 0 = none ∧ w.bot? 2 = none := by
    rw [World.bot?, World.bot?, hw]
    exact ⟨rfl, rfl⟩
  rintro a b (rfl | rfl) hholds hgate
  · cases hholds with
    | chain hpart =>
      rw [hroot] at hpart
      cases hpart with
      | first h => cases h
      | second h =>
        cases h
        exact .inr rfl
    | handler hb => cases hbots.1.symm.trans hb
  · cases hholds with
    | chain hpart => exact absurd ⟨2, rfl, hlink, hlink ▸ hpart⟩ hgate
    | handler hb => cases hbots.2.symm.trans hb

theorem not_bypassed_belowScript : ¬ askedGate.Bypassed ((List.range 20).map belowRun)
    (rootsOf [.run (.composer 0) 0]) (.script belowScript) := by
  intro h
  have hpart := h.of_closes (fun part ⟨d, hd, hstarts⟩ => by
    rw [List.mem_singleton.mp hd] at hstarts
    cases hstarts
    exact .inl rfl) fun s hs => closes_belowWorld (belowRun_composers s hs)
  rcases hpart with h | h <;> cases h

/-- The script is entered for the context for which the filter has accepted. -/
theorem filter_governs_below :
    0 < plainWorld.composers.length ∧
    (Build.register 0 (.gated false askedProbe [])).outcome plainWorld = (.ok 1, filteredWorld) ∧
    askedGate.Registered 0 plainWorld filteredWorld ∧
    (∃ next k, (belowRun 20).focus = some (.root 0, .enter (.script belowScript) 0 next k)) ∧
    askedGate.LetsThrough ((List.range 20).map belowRun ++ [belowRun 20]) (belowRun 20) (.root 0)
      0 := by
  have hid : 0 < plainWorld.composers.length := by decide
  have hregister : (Build.register 0 (.gated false askedProbe [])).outcome plainWorld =
      (.ok 1, filteredWorld) := rfl
  obtain ⟨⟨probe, negated, child⟩, rfl, rfl, hprobe, hregistered, hgoverns⟩ :=
    filter_governs hid hregister
  obtain rfl := Except.ok.inj hprobe
  obtain ⟨next, k, hfocus⟩ : ∃ next k,
      (belowRun 20).focus = some (.root 0, .enter (.script belowScript) 0 next k) := ⟨_, _, rfl⟩
  have hrun : Machine.Trace
      (Machine.ofRoots belowWorld ([.run (.composer 0) 0].map Dispatch.process))
      ((List.range 20).map belowRun) (belowRun 20) := Machine.trace_run _ 20 (by decide +kernel)
  have hgoverned := hgoverns hrun hfocus
  have hthrough := hgoverned.enters rfl nofun (.script belowScript) not_bypassed_belowScript
  exact ⟨hid, hregister, hregistered, ⟨next, k, hfocus⟩, hthrough⟩

end Gate

end UpdateDispatch
