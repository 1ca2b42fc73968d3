import UpdateDispatch.Proofs.Dispatch.Runs

/-!
# Where the processes are

Every owner has at most one process, and at every moment that process is in one place: it runs, it
has a turn in the queue, it waits for a join, its end was told to a join, or it is over. A
machine does not record when a join is over: the join stays, with an owner that has gone on long
ago. So the places are kept beside the machine. `Placed` says that a machine agrees with an
assignment of places, and `Placed.carries_next` carries the assignment along a step.

From this follow the two facts about forks that everything else rests on: a join is told of each
side once, and while a process runs, everything that was started below it is over
(`Placed.gone_of_below`).
-/

namespace UpdateDispatch

open Relation

/-- The owner whose process or whose end is in a turn. -/
def Turn.owner : Turn → Owner
  | .resume a _ => a
  | .settled join left _ => .side join left

/-- Where the process of an owner is. -/
inductive Place where
  | running
  | queued
  | waiting (join : Nat)
  | told
  | gone
  deriving DecidableEq

namespace Machine

variable {m m' : Machine} {place : Owner → Place} {a b : Owner} {p q : Process}

/-- A machine without shared tasks, whose processes are where an assignment of places says. -/
structure Placed (m : Machine) (place : Owner → Place) : Prop where
  running : ∀ {a p}, m.focus = some (a, p) → place a = .running
  queued : ∀ {t}, t ∈ m.ready → place t.owner = .queued
  distinct : (m.ready.map Turn.owner).Nodup
  waiting : ∀ {j J left}, m.joins[j]? = some J → place (.side j left) ≠ .gone →
    place J.owner = .waiting j
  told : ∀ {j J left o}, m.joins[j]? = some J → J.first = some (left, o) →
    place (.side j left) = .told ∨ place (.side j left) = .gone
  unborn : ∀ {j left}, m.joins.length ≤ j → place (.side j left) = .gone
  alone : m.tasks = []

/-! ## Starting -/

/-- The places at the start: the roots have turns. -/
def startPlace (n : Nat) : Owner → Place
  | .root i => if i < n then .queued else .gone
  | _ => .gone

theorem owners_ofRoots (w : World) (ps : List Process) :
    (ofRoots w ps).ready.map Turn.owner = (List.range ps.length).map Owner.root := by
  apply List.ext_getElem
  · simp [ofRoots]
  · intro i hi hi'
    simp [ofRoots, Turn.owner]

theorem placed_ofRoots (w : World) (ps : List Process) :
    Placed (ofRoots w ps) (startPlace ps.length) where
  running h := by cases h
  queued {t} h := by
    have howner : t.owner ∈ (ofRoots w ps).ready.map Turn.owner := List.mem_map_of_mem h
    rw [owners_ofRoots, List.mem_map] at howner
    obtain ⟨i, hi, howner⟩ := howner
    rw [← howner, startPlace, if_pos (List.mem_range.mp hi)]
  distinct := by
    rw [owners_ofRoots]
    exact List.nodup_range.map fun i j h => by injection h
  waiting h := by cases h
  told h := by cases h
  unborn _ := rfl
  alone := rfl

/-! ## Steps -/

/-- What a running process goes on with, at a number of guards and a state. -/
inductive Runs : Nat → World → Process → Nat → World → Process → Prop
  | deferred {n w p} : Runs n w (.deferred p) n w p
  | read {n w k} : Runs n w (.read k) n w (k w)
  | write {n w f p} : Runs n w (.write f p) n (f w) p
  | newGuard {n w k} : Runs n w (.newGuard k) (n + 1) w (k n)
  | checkGuard {n w guard k} (used : Bool) : Runs n w (.checkGuard guard k) n w (k used)
  | useGuard {n w guard p} : Runs n w (.useGuard guard p) n w p
  | enter {n w l x next k} : Runs n w (.enter l x next k) n w ((l.call x next).andThen k)

/-- What is left of a process that gives up its turn: it goes on later, or starts two sides at the
join `j` and waits for them. -/
inductive Parks (j : Nat) (a : Owner) : Process → Owner → Process → Prop
  | pause {p : Process} : Parks j a (.pause p) a p
  | left {l r k} : Parks j a (.both l r k) (.side j true) l
  | right {l r k} : Parks j a (.both l r k) (.side j false) r
  | join {l r k} (s : Settled) : Parks j a (.both l r k) a (k s)

/-- A process that an owner may go on with, and that does not run now. -/
inductive Rests (m : Machine) (place : Owner → Place) : Owner → Process → Prop
  | ready {a : Owner} {p : Process} (h : .resume a p ∈ m.ready) : Rests m place a p
  | join {j : Nat} {J : Join} (s : Settled) (h : m.joins[j]? = some J)
      (hwait : place J.owner = .waiting j) :
      Rests m place J.owner (J.next s)

/-- Both sides of the join `j` have ended, and the process that waited for them has a turn in
`m'`. -/
inductive Resumes (m : Machine) (j : Nat) (a : Owner) (m' : Machine) : Prop
  | mk {J : Join} {left : Bool} {o o' : Outcome} (hJ : m.joins[j]? = some J) (howner : J.owner = a)
      (hturn : .settled j left o ∈ m.ready) (hfirst : J.first = some (!left, o'))
      (hqueued : .resume a (J.next (pair (!left) o' o)) ∈ m'.ready)

/-- What a step does to the processes: the running one goes on, or gives up its turn, or another
one takes it. Who waits goes on waiting until both sides have ended, and who is over stays so. -/
structure Follows (m : Machine) (place : Owner → Place) (m' : Machine) (place' : Owner → Place) :
    Prop where
  focus : ∀ {a q}, m'.focus = some (a, q) →
    (∃ p, m.focus = some (a, p) ∧
      Runs m.guards.length m.world p m'.guards.length m'.world q) ∨
    (m.focus = none ∧ Turn.resume a q ∈ m.ready ∧ m'.guards = m.guards ∧ m'.world = m.world)
  rests : ∀ {a q}, Rests m' place' a q →
    Rests m place a q ∨ ∃ b p, m.focus = some (b, p) ∧ Parks m.joins.length b p a q
  waits : ∀ {a j}, place a = .waiting j → place' a = .waiting j ∨ Resumes m j a m'
  gone : ∀ {a}, place a = .gone → (∀ left, a ≠ .side m.joins.length left) → place' a = .gone
  shared : (∃ a p q, m.focus = some (a, p) ∧
      Runs m.guards.length m.world p m'.guards.length m'.world q) ∨
    (m'.guards = m.guards ∧ m'.world = m.world)

/-- A step of a placed machine leads to a placed machine. -/
def Carries (m : Machine) (place : Owner → Place) (m' : Machine) : Prop :=
  ∃ place', Placed m' place' ∧ Follows m place m' place'

theorem Placed.ne_of_queued (h : Placed m place) (hfocus : m.focus = some (a, p)) {t : Turn}
    (ht : t ∈ m.ready) : t.owner ≠ a := by
  intro heq
  have hqueued := h.queued ht
  rw [heq, h.running hfocus] at hqueued
  cases hqueued

theorem Placed.ne_unborn (h : Placed m place) (hfocus : m.focus = some (a, p)) (left : Bool) :
    a ≠ .side m.joins.length left := by
  rintro rfl
  have hrunning := h.running hfocus
  rw [h.unborn (Nat.le_refl _)] at hrunning
  cases hrunning

theorem Placed.carries_runs (h : Placed m place) (hfocus : m.focus = some (a, p)) {w : World}
    {guards : List Bool} (hruns : Runs m.guards.length m.world p guards.length w q) :
    Carries m place { m with world := w, guards := guards, focus := some (a, q) } := by
  refine ⟨place, ⟨?_, h.queued, h.distinct, h.waiting, h.told, h.unborn, h.alone⟩,
    ⟨?_, ?_, .inl, ?_, .inl ⟨a, p, q, hfocus, hruns⟩⟩⟩
  · rintro _ _ ⟨⟩
    exact h.running hfocus
  · rintro _ _ ⟨⟩
    exact .inl ⟨p, hfocus, hruns⟩
  · intro b r hrests
    cases hrests with
    | ready h => exact .inl (.ready h)
    | join s h hwait => exact .inl (.join s h hwait)
  · exact fun h _ => h

/-- A step in which one owner, which ran or had a turn, changes its place to `s`, and in which the
joins keep who waits and how it goes on. -/
structure Shifts (m : Machine) (place : Owner → Place) (a : Owner) (s : Place) (m' : Machine) :
    Prop where
  active : place a = .running ∨ place a = .queued
  still : ∀ j, s ≠ .waiting j
  running : ∀ {b q}, m'.focus = some (b, q) → b = a ∧ s = .running
  focus : ∀ {b q}, m'.focus = some (b, q) → m.focus = none ∧ Turn.resume b q ∈ m.ready
  queued : ∀ {t}, t ∈ m'.ready → (t ∈ m.ready ∧ t.owner ≠ a) ∨ (t.owner = a ∧ s = .queued)
  distinct : (m'.ready.map Turn.owner).Nodup
  ready : ∀ {b q}, .resume b q ∈ m'.ready →
    .resume b q ∈ m.ready ∨ ∃ p, m.focus = some (a, p) ∧ Parks m.joins.length a p b q
  joins : ∀ {j J'}, m'.joins[j]? = some J' →
    ∃ J, m.joins[j]? = some J ∧ J'.owner = J.owner ∧ J'.next = J.next ∧
      (J'.first = J.first ∨ ∃ left o, J'.first = some (left, o) ∧ a = .side j left ∧ s = .told)
  length : m'.joins.length = m.joins.length
  tasks : m'.tasks = m.tasks
  guards : m'.guards = m.guards
  world : m'.world = m.world

section Shifting

variable {s : Place}

theorem Shifts.placed (hs : Shifts m place a s m') (h : Placed m place) :
    Placed m' (Function.update place a s) where
  running hfocus := by
    obtain ⟨rfl, rfl⟩ := hs.running hfocus
    exact Function.update_self ..
  queued {t} ht := by
    rcases hs.queued ht with ⟨ht, hne⟩ | ⟨rfl, rfl⟩
    · rw [Function.update_of_ne hne, h.queued ht]
    · exact Function.update_self ..
  distinct := hs.distinct
  waiting {j J' left} hJ' hgone := by
    obtain ⟨J, hJ, howner, -, -⟩ := hs.joins hJ'
    have hactive := hs.active
    have hwaiting := @h.waiting j J left hJ
    grind [Function.update_apply]
  told {j J' left o} hJ' hfirst := by
    obtain ⟨J, hJ, -, -, hfirsts⟩ := hs.joins hJ'
    have hactive := hs.active
    have htold := @h.told j J left o hJ
    grind [Function.update_apply]
  unborn {j left} hj := by
    have hactive := hs.active
    have hgone := @h.unborn j left (hs.length ▸ hj)
    grind [Function.update_apply]
  alone := hs.tasks.trans h.alone

theorem Shifts.follows (hs : Shifts m place a s m') :
    Follows m place m' (Function.update place a s) where
  focus hfocus := .inr ⟨(hs.focus hfocus).1, (hs.focus hfocus).2, hs.guards, hs.world⟩
  rests {b q} hrests := by
    cases hrests with
    | ready hr => exact (hs.ready hr).imp .ready fun ⟨p, hfocus, hparks⟩ => ⟨a, p, hfocus, hparks⟩
    | @join j J' c hJ' hwait =>
      obtain ⟨J, hJ, howner, hnext, -⟩ := hs.joins hJ'
      rw [howner, hnext]
      refine .inl (.join c hJ ?_)
      have hstill := hs.still j
      grind [Function.update_apply]
  waits {b j} hwait := by
    have hactive := hs.active
    refine .inl ?_
    grind [Function.update_apply]
  gone {b} hgone _ := by
    have hactive := hs.active
    grind [Function.update_apply]
  shared := .inr ⟨hs.guards, hs.world⟩

theorem Shifts.carries (hs : Shifts m place a s m') (h : Placed m place) : Carries m place m' :=
  ⟨_, hs.placed h, hs.follows⟩

end Shifting

/-- A turn for the owner that just ran. -/
theorem Placed.carries_queue (h : Placed m place) (hfocus : m.focus = some (a, p)) {t : Turn}
    (ht : t.owner = a) (hparks : ∀ b q, t = .resume b q → Parks m.joins.length a p b q) :
    Carries m place (m.idle.queue t) := by
  have hne : ∀ {u : Turn}, u ∈ m.ready → u.owner ≠ a := h.ne_of_queued hfocus
  refine Shifts.carries (a := a) (s := .queued) ?_ h
  exact {
    active := .inl (h.running hfocus)
    still := nofun
    running := nofun
    focus := nofun
    queued := fun hu => (List.mem_append.mp hu).imp (fun hu => ⟨hu, hne hu⟩)
      fun hu => ⟨(congrArg Turn.owner (List.mem_singleton.mp hu)).trans ht, rfl⟩
    distinct := by
      simp only [queue, idle, List.map_append, List.map_cons, List.map_nil]
      rw [List.nodup_append]
      refine ⟨h.distinct, by simp, ?_⟩
      intro b hb c hc
      obtain ⟨u, hu, rfl⟩ := List.mem_map.mp hb
      rw [List.mem_singleton.mp hc, ht]
      exact hne hu
    ready := fun hr => (List.mem_append.mp hr).imp_right
      fun hr => ⟨p, hfocus, hparks _ _ (List.mem_singleton.mp hr).symm⟩
    joins := fun hJ => ⟨_, hJ, rfl, rfl, .inl rfl⟩
    length := rfl
    tasks := rfl
    guards := rfl
    world := rfl }

/-- The end of a process that nobody waits for. -/
theorem Placed.carries_leave (h : Placed m place) (hfocus : m.focus = some (a, p))
    (roots : List (Option Outcome)) : Carries m place { m.idle with roots } := by
  refine Shifts.carries (a := a) (s := .gone) ?_ h
  exact {
    active := .inl (h.running hfocus)
    still := nofun
    running := nofun
    focus := nofun
    queued := fun hu => .inl ⟨hu, h.ne_of_queued hfocus hu⟩
    distinct := h.distinct
    ready := .inl
    joins := fun hJ => ⟨_, hJ, rfl, rfl, .inl rfl⟩
    length := rfl
    tasks := rfl
    guards := rfl
    world := rfl }

theorem Placed.carries_finish (h : Placed m place) (hfocus : m.focus = some (a, p)) (o : Outcome) :
    Carries m place (m.finish a o) := by
  cases a with
  | root index => exact h.carries_leave hfocus _
  | side join left => exact h.carries_queue hfocus rfl nofun
  | shared task =>
    have hleave := h.carries_leave hfocus m.roots
    simpa [finish, h.alone, idle] using hleave

/-- The machine after a process has started two sides. -/
def split (a : Owner) (l r : Process) (k : Settled → Process) (m : Machine) : Machine :=
  { m.idle with
    joins := m.joins ++ [{ owner := a, next := k }]
    ready := m.ready ++ [.resume (.side m.joins.length true) l,
      .resume (.side m.joins.length false) r] }

/-- The places after a process has started two sides at the join `j`. -/
def splitPlace (place : Owner → Place) (a : Owner) (j : Nat) : Owner → Place :=
  fun b => if b = a then .waiting j else if b = .side j true ∨ b = .side j false then .queued
    else place b

theorem getElem?_joins_split {l r : Process} {k : Settled → Process} {j : Nat} {J : Join}
    (h : (split a l r k m).joins[j]? = some J) :
    m.joins[j]? = some J ∨ (j = m.joins.length ∧ J = { owner := a, next := k }) := by
  simp only [split, idle] at h
  rw [List.getElem?_append] at h
  split at h
  · exact .inl h
  · grind

theorem Placed.gone_new (h : Placed m place) (left : Bool) :
    place (.side m.joins.length left) = .gone := h.unborn (Nat.le_refl _)

theorem Placed.ne_new_of_queued (h : Placed m place) {t : Turn} (ht : t ∈ m.ready) (left : Bool) :
    t.owner ≠ .side m.joins.length left := by
  intro heq
  have hqueued := h.queued ht
  rw [heq, h.gone_new left] at hqueued
  cases hqueued

theorem Placed.placed_split {l r : Process} {k : Settled → Process} (h : Placed m place)
    (hfocus : m.focus = some (a, p)) :
    Placed (m.split a l r k) (splitPlace place a m.joins.length) where
  running := nofun
  queued {t} ht := by
    rcases List.mem_append.mp ht with ht | ht
    · have hne := h.ne_of_queued hfocus ht
      have hleft := h.ne_new_of_queued ht true
      have hright := h.ne_new_of_queued ht false
      have hqueued := h.queued ht
      grind [splitPlace]
    · have hleft := h.ne_unborn hfocus true
      have hright := h.ne_unborn hfocus false
      grind [splitPlace, Turn.owner]
  distinct := by
    simp only [split, idle, List.map_append, List.map_cons, List.map_nil]
    rw [List.nodup_append]
    refine ⟨h.distinct, by simp [Turn.owner], ?_⟩
    intro b hb c hc
    obtain ⟨u, hu, rfl⟩ := List.mem_map.mp hb
    have hleft := h.ne_new_of_queued hu true
    have hright := h.ne_new_of_queued hu false
    grind [Turn.owner]
  waiting {j J left} hJ hgone := by
    have hrunning := h.running hfocus
    rcases getElem?_joins_split hJ with hJ | ⟨rfl, rfl⟩
    · have hwaiting := @h.waiting j J left hJ
      have hleft := h.gone_new true
      have hright := h.gone_new false
      grind [splitPlace]
    · rw [splitPlace, if_pos rfl]
  told {j J left o} hJ hfirst := by
    have hrunning := h.running hfocus
    rcases getElem?_joins_split hJ with hJ | ⟨rfl, rfl⟩
    · have htold := h.told hJ hfirst
      have hunborn := @h.unborn j left
      grind [splitPlace]
    · cases hfirst
  unborn {j left} hj := by
    have hrunning := h.running hfocus
    simp only [split, idle, List.length_append, List.length_singleton] at hj
    have hgone := @h.unborn j left (by omega)
    grind [splitPlace]
  alone := h.alone

theorem Placed.follows_split {l r : Process} {k : Settled → Process} (h : Placed m place)
    (hfocus : m.focus = some (a, .both l r k)) :
    Follows m place (m.split a l r k) (splitPlace place a m.joins.length) where
  focus := nofun
  rests {b q} hrests := by
    cases hrests with
    | ready hr =>
      rcases List.mem_append.mp hr with hr | hr
      · exact .inl (.ready hr)
      · refine .inr ⟨a, _, hfocus, ?_⟩
        simp only [List.mem_cons, Turn.resume.injEq, List.not_mem_nil, or_false] at hr
        obtain ⟨rfl, rfl⟩ | ⟨rfl, rfl⟩ := hr
        · exact .left
        · exact .right
    | @join j J s hJ hwait =>
      rcases getElem?_joins_split hJ with hJ' | ⟨rfl, rfl⟩
      · refine .inl (.join s hJ' ?_)
        have hwaiting := @h.waiting j J
        obtain ⟨hlt, -⟩ := List.getElem?_eq_some_iff.mp hJ'
        grind [splitPlace]
      · exact .inr ⟨a, _, hfocus, .join s⟩
  waits {b j} hwait := by
    have hrunning := h.running hfocus
    have hleft := h.gone_new true
    have hright := h.gone_new false
    refine .inl ?_
    grind [splitPlace]
  gone {b} hgone hb := by
    have hrunning := h.running hfocus
    have hleft := hb true
    have hright := hb false
    grind [splitPlace]
  shared := .inr ⟨rfl, rfl⟩

theorem Placed.carries_split {l r : Process} {k : Settled → Process} (h : Placed m place)
    (hfocus : m.focus = some (a, .both l r k)) : Carries m place (m.split a l r k) :=
  ⟨_, h.placed_split hfocus, h.follows_split hfocus⟩

section Turns

variable {before after : List Turn} {t : Turn}

theorem Placed.others (h : Placed m place) (hready : m.ready = before ++ t :: after) :
    (∀ u ∈ before ++ after, u ∈ m.ready ∧ u.owner ≠ t.owner) ∧
      ((before ++ after).map Turn.owner).Nodup := by
  have hdistinct := h.distinct
  have hperm : (before ++ t :: after).Perm (t :: (before ++ after)) := List.perm_middle
  rw [hready, (hperm.map Turn.owner).nodup_iff, List.map_cons, List.nodup_cons] at hdistinct
  refine ⟨fun u hu => ⟨?_, ?_⟩, hdistinct.2⟩
  · rw [hready]
    exact hperm.mem_iff.mpr (List.mem_cons_of_mem t hu)
  · intro heq
    exact hdistinct.1 (heq ▸ List.mem_map_of_mem hu)

theorem Placed.carries_resume (h : Placed m place) (hfocus : m.focus = none)
    (hready : m.ready = before ++ .resume a p :: after) :
    Carries m place (focusOn a p { m with ready := before ++ after }) := by
  obtain ⟨hothers, hdistinct⟩ := h.others hready
  have hmem : Turn.resume a p ∈ m.ready := by simp [hready]
  refine Shifts.carries (a := a) (s := .running) ?_ h
  exact {
    active := .inr (h.queued hmem)
    still := nofun
    running := by
      rintro _ _ ⟨⟩
      exact ⟨rfl, rfl⟩
    focus := by
      rintro _ _ ⟨⟩
      exact ⟨hfocus, hmem⟩
    queued := fun hu => .inl (hothers _ hu)
    distinct := hdistinct
    ready := fun hr => .inl (hothers _ hr).1
    joins := fun hJ => ⟨_, hJ, rfl, rfl, .inl rfl⟩
    length := rfl
    tasks := rfl
    guards := rfl
    world := rfl }

theorem getElem?_joins_set {joins : List Join} {j i : Nat} {J J' : Join}
    {f : Option (Bool × Outcome)}
    (hJ : joins[j]? = some J) (h : (joins.set j { J with first := f })[i]? = some J') :
    ∃ I, joins[i]? = some I ∧ J'.owner = I.owner ∧ J'.next = I.next ∧
      ((i = j ∧ J'.first = f) ∨ (i ≠ j ∧ J'.first = I.first)) := by
  rw [List.getElem?_set] at h
  grind

theorem Placed.carries_settle_first (h : Placed m place) (hfocus : m.focus = none) {j : Nat}
    {left : Bool} {o : Outcome} {J : Join} (hready : m.ready = before ++ .settled j left o :: after)
    (hJ : m.joins[j]? = some J) :
    Carries m place { m with
      ready := before ++ after
      joins := m.joins.set j { J with first := some (left, o) } } := by
  obtain ⟨hothers, hdistinct⟩ := h.others hready
  have hmem : Turn.settled j left o ∈ m.ready := by simp [hready]
  have hidle : ∀ {b q}, m.focus ≠ some (b, q) := fun hsome => by
    rw [hfocus] at hsome
    cases hsome
  refine Shifts.carries (a := .side j left) (s := .told) ?_ h
  exact {
    active := .inr (h.queued hmem)
    still := nofun
    running := fun hsome => absurd hsome hidle
    focus := fun hsome => absurd hsome hidle
    queued := fun hu => .inl (hothers _ hu)
    distinct := hdistinct
    ready := fun hr => .inl (hothers _ hr).1
    joins := by
      intro i J' hJ'
      obtain ⟨I, hI, howner, hnext, hfirst⟩ := getElem?_joins_set hJ hJ'
      refine ⟨I, hI, howner, hnext, ?_⟩
      rcases hfirst with ⟨rfl, hfirst⟩ | ⟨-, hfirst⟩
      · exact .inr ⟨left, o, hfirst, rfl, rfl⟩
      · exact .inl hfirst
    length := List.length_set
    tasks := rfl
    guards := rfl
    world := rfl }

/-- The places after both sides of the join `j` have been told of. -/
def joinedPlace (place : Owner → Place) (a : Owner) (j : Nat) : Owner → Place :=
  fun b => if b = a then .queued else if b = .side j true ∨ b = .side j false then .gone
    else place b

/-- Which side comes last is not the one that came first. -/
theorem Placed.other_side (h : Placed m place) {j : Nat} {left left' : Bool} {o o' : Outcome}
    {J : Join} (hmem : .settled j left o ∈ m.ready) (hJ : m.joins[j]? = some J)
    (hfirst : J.first = some (left', o')) : left' = !left := by
  have hqueued : place (.side j left) = .queued := h.queued hmem
  have htold := h.told hJ hfirst
  cases left <;> cases left' <;> simp_all

/-- The machine after the second side of a join has ended. -/
def rejoined (m : Machine) (rest : List Turn) (J : Join) (s : Settled) : Machine :=
  queue (.resume J.owner (J.next s)) { m with ready := rest }

theorem Placed.waiting_of_settled (h : Placed m place) {j : Nat} {left : Bool} {o : Outcome}
    {J : Join} (hmem : .settled j left o ∈ m.ready) (hJ : m.joins[j]? = some J) :
    place J.owner = .waiting j := by
  have hqueued : place (.side j left) = .queued := h.queued hmem
  exact h.waiting hJ (by rw [hqueued]; exact nofun)

section Second

variable {j : Nat} {left : Bool} {o o' : Outcome} {J : Join}

theorem Placed.placed_settle_second (h : Placed m place) (hfocus : m.focus = none)
    (hready : m.ready = before ++ .settled j left o :: after) (hJ : m.joins[j]? = some J)
    (hfirst : J.first = some (!left, o')) (s : Settled) :
    Placed (m.rejoined (before ++ after) J s) (joinedPlace place J.owner j) := by
  obtain ⟨hothers, hdistinct⟩ := h.others hready
  have hmem : Turn.settled j left o ∈ m.ready := by simp [hready]
  have hqueued : place (.side j left) = .queued := h.queued hmem
  have hwaiting := h.waiting_of_settled hmem hJ
  have htold := h.told hJ hfirst
  have hsides : ∀ side i, place (.side j side) ≠ .waiting i := by
    intro side i
    cases side <;> cases left <;> grind
  exact {
    running := fun hsome => by
      rw [show (m.rejoined _ J s).focus = none from hfocus] at hsome
      cases hsome
    queued := by
      intro u hu
      rcases List.mem_append.mp hu with hu | hu
      · obtain ⟨hu, hne⟩ := hothers u hu
        have hne : u.owner ≠ .side j left := hne
        have hturn := h.queued hu
        cases left <;> grind [joinedPlace]
      · grind [joinedPlace, Turn.owner]
    distinct := by
      simp only [rejoined, queue, List.map_append, List.map_cons, List.map_nil]
      rw [← List.map_append, List.nodup_append]
      refine ⟨hdistinct, by simp, ?_⟩
      intro b hb c hc
      obtain ⟨u, hu, rfl⟩ := List.mem_map.mp hb
      have hturn := h.queued (hothers u hu).1
      grind [Turn.owner]
    waiting := by
      intro i I side hI hgone
      have hwait := @h.waiting i I side hI
      cases side <;> grind [joinedPlace]
    told := by
      intro i I side c hI hfirst'
      have htold' := @h.told i I side c hI hfirst'
      cases side <;> grind [joinedPlace]
    unborn := by
      intro i side hi
      have hgone := @h.unborn i side hi
      grind [joinedPlace]
    alone := h.alone }

theorem Placed.follows_settle_second (h : Placed m place) (hfocus : m.focus = none)
    (hready : m.ready = before ++ .settled j left o :: after) (hJ : m.joins[j]? = some J)
    (hfirst : J.first = some (!left, o')) :
    Follows m place (m.rejoined (before ++ after) J (pair (!left) o' o))
      (joinedPlace place J.owner j) := by
  obtain ⟨hothers, -⟩ := h.others hready
  have hmem : Turn.settled j left o ∈ m.ready := by simp [hready]
  have hqueued : place (.side j left) = .queued := h.queued hmem
  have hwaiting := h.waiting_of_settled hmem hJ
  have htold := h.told hJ hfirst
  exact {
    focus := fun hsome => by
      rw [show (m.rejoined _ J _).focus = none from hfocus] at hsome
      cases hsome
    rests := by
      intro b r hrests
      cases hrests with
      | ready hr =>
        rcases List.mem_append.mp hr with hr | hr
        · exact .inl (.ready (hothers _ hr).1)
        · obtain ⟨rfl, rfl⟩ := Turn.resume.inj (List.mem_singleton.mp hr)
          exact .inl (.join _ hJ hwaiting)
      | @join i I s hI hwait =>
        refine .inl (.join s hI ?_)
        grind [joinedPlace]
    waits := by
      intro b i hwait
      by_cases hb : b = J.owner
      · subst hb
        rw [hwaiting] at hwait
        cases hwait
        exact .inr ⟨hJ, rfl, hmem, hfirst, by simp [rejoined, queue]⟩
      · refine .inl ?_
        cases left <;> grind [joinedPlace]
    gone := by
      intro b hgone _
      grind [joinedPlace]
    shared := .inr ⟨rfl, rfl⟩ }

end Second

theorem Placed.carries_settle_second (h : Placed m place) (hfocus : m.focus = none) {j : Nat}
    {left left' : Bool} {o o' : Outcome} {J : Join}
    (hready : m.ready = before ++ .settled j left o :: after)
    (hJ : m.joins[j]? = some J) (hfirst : J.first = some (left', o')) :
    Carries m place (m.rejoined (before ++ after) J (pair left' o' o)) := by
  have hmem : Turn.settled j left o ∈ m.ready := by simp [hready]
  obtain rfl := h.other_side hmem hJ hfirst
  exact ⟨_, h.placed_settle_second hfocus hready hJ hfirst _,
    h.follows_settle_second hfocus hready hJ hfirst⟩

theorem Placed.carries_take (h : Placed m place) (hfocus : m.focus = none)
    (hready : m.ready = before ++ t :: after) :
    Carries m place (take t { m with ready := before ++ after }) := by
  cases t with
  | resume a p => exact h.carries_resume hfocus hready
  | settled j left o =>
    have hmem : Turn.settled j left o ∈ m.ready := by simp [hready]
    rcases hJ : m.joins[j]? with _ | J
    · have hgone : place (.side j left) = .gone := h.unborn (List.getElem?_eq_none_iff.mp hJ)
      have hqueued : place (.side j left) = .queued := h.queued hmem
      rw [hgone] at hqueued
      cases hqueued
    · rcases hfirst : J.first with _ | ⟨left', o'⟩
      · simpa [take, settle, hJ, hfirst] using h.carries_settle_first hfocus hready hJ
      · simpa [take, settle, rejoined, hJ, hfirst] using
          h.carries_settle_second hfocus hready hJ hfirst

end Turns

/-- A step of a process that starts no shared task, from a placed machine to a placed machine. -/
theorem Placed.carries_next (h : Placed m place) (hnext : Next m m')
    (hstart : ∀ a p k, m.focus ≠ some (a, .start p k)) : Carries m place m' := by
  cases hnext with
  | turn hfocus hready => exact h.carries_take hfocus hready
  | @advance a p hfocus =>
    cases p with
    | value v => exact h.carries_finish hfocus _
    | raised f => exact h.carries_finish hfocus _
    | deferred p => exact h.carries_runs hfocus .deferred
    | read k => exact h.carries_runs hfocus .read
    | write f p => exact h.carries_runs hfocus .write
    | newGuard k => exact h.carries_runs hfocus (by simpa using .newGuard)
    | checkGuard guard k => exact h.carries_runs hfocus (.checkGuard _)
    | useGuard guard p => exact h.carries_runs hfocus (by simpa using .useGuard)
    | enter l x next k => exact h.carries_runs hfocus .enter
    | pause p =>
      refine h.carries_queue hfocus rfl ?_
      rintro _ _ ⟨⟩
      exact .pause
    | both l r k => exact h.carries_split hfocus
    | start p k => exact absurd hfocus (hstart a p k)
    | await task k =>
      have hfinish := h.carries_finish hfocus (.error (.mismatch "no such task"))
      simpa [advance, h.alone] using hfinish

/-! ## Below a process -/

theorem Next.joins (hnext : Next m m') {j : Nat} {J : Join} (hJ : m.joins[j]? = some J) :
    ∃ J', m'.joins[j]? = some J' ∧ J'.owner = J.owner ∧ J'.next = J.next := by
  cases hnext with
  | @advance a p hfocus =>
    cases p with
    | both l r k =>
      obtain ⟨hlt, -⟩ := List.getElem?_eq_some_iff.mp hJ
      exact ⟨J, by simp [Machine.advance, idle, List.getElem?_append_left hlt, hJ], rfl, rfl⟩
    | value v => cases a <;> exact ⟨J, hJ, rfl, rfl⟩
    | raised f => cases a <;> exact ⟨J, hJ, rfl, rfl⟩
    | await task k =>
      simp only [Machine.advance]
      split
      · exact ⟨J, hJ, rfl, rfl⟩
      · exact ⟨J, hJ, rfl, rfl⟩
      · cases a <;> exact ⟨J, hJ, rfl, rfl⟩
    | _ => exact ⟨J, hJ, rfl, rfl⟩
  | @turn before after t hfocus hready =>
    cases t with
    | resume a p => exact ⟨J, hJ, rfl, rfl⟩
    | settled i left o =>
      simp only [take, settle]
      split
      · exact ⟨J, hJ, rfl, rfl⟩
      · next I hI =>
        split
        · simp only [List.getElem?_set]
          grind
        · exact ⟨J, hJ, rfl, rfl⟩

/-- The owners that an owner has started, directly or not, by joins from number `base` on. -/
inductive Below (base : Nat) (m : Machine) (a : Owner) : Owner → Prop
  | self : Below base m a a
  | side {j : Nat} {J : Join} (left : Bool) (hj : base ≤ j) (hJ : m.joins[j]? = some J)
      (h : Below base m a J.owner) : Below base m a (.side j left)

theorem Below.next {base : Nat} (h : Below base m a b) (hnext : Next m m') :
    Below base m' a b := by
  induction h with
  | self => exact .self
  | side left hj hJ _ ih =>
    obtain ⟨J', hJ', howner, -⟩ := hnext.joins hJ
    exact .side left hj hJ' (howner ▸ ih)

/-- What is not over below a process is something it waits for. -/
theorem Placed.waits_of_below {base : Nat} (h : Placed m place) (hbelow : Below base m a b)
    (hne : b ≠ a) (hplace : place b ≠ .gone) : ∃ j, place a = .waiting j := by
  induction hbelow with
  | self => exact absurd rfl hne
  | @side j J left _ hJ _ ih =>
    have hwait := h.waiting hJ hplace
    by_cases howner : J.owner = a
    · exact ⟨j, howner ▸ hwait⟩
    · exact ih howner (by rw [hwait]; exact nofun)

/-- While a process runs, everything that was started below it is over. -/
theorem Placed.gone_of_below {base : Nat} (h : Placed m place)
    (hfocus : m.focus = some (a, p)) (hbelow : Below base m a b) (hne : b ≠ a) :
    place b = .gone := by
  by_contra hplace
  obtain ⟨j, hwait⟩ := h.waits_of_below hbelow hne hplace
  rw [h.running hfocus] at hwait
  cases hwait

end Machine
end UpdateDispatch
