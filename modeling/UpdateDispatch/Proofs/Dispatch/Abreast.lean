import UpdateDispatch.Proofs.Dispatch.Branches
import UpdateDispatch.Proofs.Dispatch.KeepsOff

/-!
# A run with branches, and the rest alone

What a run does but for its branches is what a lone process does. The invariant has two parts.

`Waits` follows the joins from the root down to the one side that carries the rest on, and says what
the lone process has before it when that side has ended. `Loose` lists all other turns: those of the
branches, which keep to themselves (`Under`), and what is left of calls that were made too often. A
turn like these changes nothing that the rest can see, and it is gone when its join is over
(`Loose.tail`).

`Rest` says that the state is that of the lone process, as far as the rest sees it. `Underway` and
`Resting` say in addition what the rest is at, when it runs and when it does not. A step in which it
runs is one of the lone process too, unless it is one of a few kinds (`Underway.step`).
-/

namespace UpdateDispatch

open Relation

/-- A join on the way from the root, with the fault of its second side as far as it is known: a
branch has none. -/
abbrev Wait := Nat × Option Fault

namespace Variants

variable (V : Variants)

/-- Whatever the state is, what the lone process is at comes at once to something that does the same
as `p`, and goes on with `K`. -/
def Returns (N : Numbers) (g : List Bool) (p q : Process) (K : Outcome → Process) : Prop :=
  ∃ p', V.Later V.Shows N p p' ∧ ∀ g' w, Machine.Kept g g' →
    ReflTransGen Lone.Goes ⟨g', w, q⟩ ⟨g', w, p'.andThen K⟩

/-- The joins on the way from the root to an owner, and what the lone process does when that owner
has ended. -/
inductive Waits (N : Numbers) (Js : List Join) (g : List Bool) :
    List Wait → Owner → (Outcome → Process) → Prop
  | root : Waits N Js g [] (.root 0) Process.ended
  | side {ws : List Wait} {a : Owner} {K L : Outcome → Process} {j : Nat} {J : Join}
      {other : Option Fault} (h : Waits N Js g ws a K) (hJ : Js[j]? = some J) (howner : J.owner = a)
      (hfirst : ∀ left o, J.first = some (left, o) → left = false ∧ Outcome.fault? o = other)
      (hnew : ∀ w ∈ ws, w.1 ≠ j)
      (hnext : ∀ s : Settled, Outcome.fault? s.right = other →
        V.Returns N g (J.next s) (L s.left) K) :
      Waits N Js g ((j, other) :: ws) (.side j true) L

/-- The variants have the same composers, and beside the first one runs at most the branch
`side`. -/
structure Forks (side : Nat) : Prop where
  faithful : V.Faithful V.Shows
  beside : ∀ {b}, V.beside b → ∃ x, b = Process.dispatch side x .leaf
  left : V.left = []
  right : V.right = []
  kept : ∀ w, V.kept w

end Variants

namespace Machine

open Process

/-! ## Turns of others -/

section Turns

variable (side : Nat) (m₀ : Machine) (N : Numbers)

/-- The owner runs for the branch at the join `j`, and so does whoever waits in between. -/
inductive Under (m : Machine) (j : Nat) : Owner → Prop
  | branch : Under m j (.side j false)
  | side {i : Nat} {J : Join} (left : Bool) (hJ : m.joins[i]? = some J)
      (hnext : ∀ s, (Trait.keepsOff N).later m.guards.length m.world.marks.length (J.next s))
      (h : Under m j J.owner) : Under m j (.side i left)

/-- A turn that does not carry the rest on, but belongs to the second side of a join on the way: a
branch goes on, or something that it has started has ended, or a continuation is called that was
called before, or the second side has ended. -/
inductive LooseAt (m : Machine) : Wait → Turn → Prop
  | goes {j : Nat} {a : Owner} {p : Process} (hj : BranchAt side m₀ j) (ha : Under N m j a)
      (hp : (Trait.keepsOff N).later m.guards.length m.world.marks.length p) :
      LooseAt m (j, none) (.resume a p)
  | tells {j i : Nat} {left : Bool} {o : Outcome} {J : Join} (hj : BranchAt side m₀ j)
      (hJ : m.joins[i]? = some J)
      (hnext : ∀ s, (Trait.keepsOff N).later m.guards.length m.world.marks.length (J.next s))
      (ha : Under N m j J.owner) : LooseAt m (j, none) (.settled i left o)
  | spent {j i : Nat} {rest : Process} (hj : ¬ BranchAt side m₀ j) (hi : m.used i = true) :
      LooseAt m (j, some .nextCalledTwice) (.resume (.side j false) (once i rest))
  | told {j : Nat} {o : Outcome} : LooseAt m (j, Outcome.fault? o) (.settled j false o)

/-- A turn that does not carry the rest on. -/
def Loose (m : Machine) (ws : List Wait) (t : Turn) : Prop :=
  ∃ w ∈ ws, LooseAt side m₀ N m w t

/-- A queue that holds the turns `ts` in one place, and loose turns but for them. -/
def Among (m : Machine) (ws : List Wait) (ts ready : List Turn) : Prop :=
  ∃ before after, ready = before ++ (ts ++ after) ∧ ∀ t ∈ before ++ after, Loose side m₀ N m ws t

/-- A process runs for a branch, and keeps to itself. -/
structure BranchRuns (m : Machine) (ws : List Wait) (b : Owner) (p : Process) (j : Nat) :
    Prop where
  branch : BranchAt side m₀ j
  wait : (j, none) ∈ ws
  owner : Under N m j b
  keeps : (Trait.keepsOff N).now m.guards.length m.world p

end Turns

/-- The run has gone from `m` to `m'`, and the numbers in new pairs have been given out since. -/
structure Onward (m : Machine) (N : Numbers) (m' : Machine) (N' : Numbers) : Prop
    extends N.Within N' where
  goes : ReflTransGen Goes m m'
  newGuards : ∀ {i j}, (i, j) ∈ N'.guards →
    (i, j) ∈ N.guards ∨ m.guards.length ≤ i ∧ i < m'.guards.length
  newMarks : ∀ {i j}, (i, j) ∈ N'.marks →
    (i, j) ∈ N.marks ∨ m.world.marks.length ≤ i ∧ i < m'.world.marks.length
  marks_le : m.world.marks.length ≤ m'.world.marks.length

variable {side : Nat} {m₀ m m' : Machine} {N N' : Numbers} {j : Nat} {a b : Owner} {p q : Process}
  {ws : List Wait} {w : Wait} {t : Turn}

theorem Onward.of_marks (hgo : ReflTransGen Goes m m')
    (hmarks : m'.world.marks.length = m.world.marks.length) : Onward m N m' N where
  toWithin := .refl N
  goes := hgo
  newGuards := .inl
  newMarks := .inl
  marks_le := hmarks.ge

/-- Where nobody runs, nothing has to be said of who does. -/
theorem elim_of_idle {C : Prop} (hidle : m.focus = none) (hfocus : m.focus = some (b, p)) : C := by
  rw [hidle] at hfocus
  cases hfocus

theorem onward_newGuard
    (hgo : Goes m { m with guards := m.guards ++ [false], focus := some (a, p) }) (i : Nat) :
    Onward m N { m with guards := m.guards ++ [false], focus := some (a, p) }
      (N.guard m.guards.length i) where
  toWithin := Numbers.within_guard
  goes := .single hgo
  newGuards hi := (List.mem_cons.mp hi).symm.imp_right fun heq => by
    cases heq
    exact ⟨Nat.le_refl _, by simp⟩
  newMarks := .inl
  marks_le := Nat.le_refl _

theorem Onward.kept (h : Onward m N m' N') : Kept m.guards m'.guards :=
  Kept.of_reaches (nexts_of_goes h.goes)

theorem join_of_goes (hgo : ReflTransGen Goes m m') {i : Nat} {J : Join}
    (hJ : m.joins[i]? = some J) :
    ∃ J', m'.joins[i]? = some J' ∧ J'.owner = J.owner ∧ J'.next = J.next := by
  have hrun := nexts_of_goes hgo
  clear hgo
  induction hrun with
  | refl => exact ⟨J, hJ, rfl, rfl⟩
  | tail _ hnext ih =>
    obtain ⟨J₁, hJ₁, howner₁, hnext₁⟩ := ih
    obtain ⟨J₂, hJ₂, howner₂, hnext₂⟩ := hnext.joins hJ₁
    exact ⟨J₂, hJ₂, howner₂.trans howner₁, hnext₂.trans hnext₁⟩

theorem Onward.keepsOff (h : Onward m N m' N')
    (hp : (Trait.keepsOff N).later m.guards.length m.world.marks.length p) :
    (Trait.keepsOff N').later m'.guards.length m'.world.marks.length p :=
  Trait.keepsOff_of_new hp h.kept.length_le h.marks_le h.newGuards h.newMarks

theorem Under.onward (h : Under N m j a) (hon : Onward m N m' N') : Under N' m' j a := by
  induction h with
  | branch => exact .branch
  | side left hJ hnext _ ih =>
    obtain ⟨J', hJ', howner, heq⟩ := join_of_goes hon.goes hJ
    exact .side left hJ' (fun s => heq ▸ hon.keepsOff (hnext s)) (howner ▸ ih)

theorem Under.isBelow (h : Under N m j a) : Below 0 m (.side j false) a := by
  induction h with
  | branch => exact .self
  | side left hJ _ _ ih => exact .side left (Nat.zero_le _) hJ ih

theorem Under.inBranch (h : Under N m j a) (hj : BranchAt side m₀ j) : InBranch side m₀ m a :=
  ⟨j, hj, h.isBelow⟩

theorem LooseAt.onward (h : LooseAt side m₀ N m w t) (hon : Onward m N m' N') :
    LooseAt side m₀ N' m' w t := by
  cases h with
  | goes hj ha hp => exact .goes hj (ha.onward hon) (hon.keepsOff hp)
  | tells hj hJ hnext ha =>
    obtain ⟨J', hJ', howner, heq⟩ := join_of_goes hon.goes hJ
    exact .tells hj hJ' (fun s => heq ▸ hon.keepsOff (hnext s)) (howner ▸ ha.onward hon)
  | spent hj hi => exact .spent hj (used_of_reaches (nexts_of_goes hon.goes) hi)
  | told => exact .told

theorem Loose.onward (h : Loose side m₀ N m ws t) (hon : Onward m N m' N') :
    Loose side m₀ N' m' ws t := by
  obtain ⟨w, hw, h⟩ := h
  exact ⟨w, hw, h.onward hon⟩

theorem Loose.mono {ws' : List Wait} (h : Loose side m₀ N m ws t) (hws : ws ⊆ ws') :
    Loose side m₀ N m ws' t := by
  obtain ⟨w, hw, h⟩ := h
  exact ⟨w, hws hw, h⟩

/-- Loose turns stay so, and others join the queue. -/
theorem Among.onward {ts ready new : List Turn} (h : Among side m₀ N m ws ts ready)
    (hon : Onward m N m' N') (hnew : ∀ t ∈ new, Loose side m₀ N' m' ws t) :
    Among side m₀ N' m' ws ts (ready ++ new) := by
  obtain ⟨before, after, rfl, hloose⟩ := h
  refine ⟨before, after ++ new, by simp, fun t ht => ?_⟩
  rw [← List.append_assoc] at ht
  rcases List.mem_append.mp ht with ht | ht
  · exact (hloose t ht).onward hon
  · exact hnew t ht

theorem Among.later {ts ready : List Turn} (h : Among side m₀ N m ws ts ready)
    (hon : Onward m N m' N') : Among side m₀ N' m' ws ts ready := by
  have hready := h.onward hon (List.forall_mem_nil _)
  rwa [List.append_nil] at hready

/-- A loose turn is of somebody who was started by the second side of its join. -/
theorem LooseAt.isBelow (h : LooseAt side m₀ N m w t) :
    Below 0 m (.side w.1 false) t.owner := by
  cases h with
  | goes _ ha _ => exact ha.isBelow
  | tells _ hJ _ ha => exact .side _ (Nat.zero_le _) hJ ha.isBelow
  | spent => exact .self
  | told => exact .self

/-- When a join is over, nobody goes on who was started by its second side. -/
theorem Placed.not_below_of_settled {place : Owner → Place} (h : Placed m place) {J : Join}
    {before after : List Turn} {left : Bool} {o o' : Outcome}
    (hready : m.ready = before ++ .settled j left o :: after) (hJ : m.joins[j]? = some J)
    (hfirst : J.first = some (!left, o')) (ht : t ∈ before ++ after) :
    ¬ Below 0 m (.side j false) t.owner := by
  intro hbelow
  obtain ⟨hothers, -⟩ := h.others hready
  obtain ⟨hmem, hne⟩ := hothers t ht
  have hqueued : place t.owner = .queued := h.queued hmem
  have hsettled : place (.side j left) = .queued := h.queued (t := .settled j left o) (by
    rw [hready]
    exact List.mem_append_right _ List.mem_cons_self)
  have htold : left = true → place (.side j false) = .told ∨ place (.side j false) = .gone := by
    rintro rfl
    exact h.told hJ hfirst
  have hself : t.owner ≠ .side j false := by
    intro heq
    cases left with
    | false => exact hne heq
    | true =>
      rw [← heq, hqueued] at htold
      rcases htold rfl with htold | htold <;> cases htold
  obtain ⟨i, hwaits⟩ := h.waits_of_below hbelow hself (by rw [hqueued]; exact nofun)
  cases left with
  | false =>
    rw [hsettled] at hwaits
    cases hwaits
  | true =>
    rw [hwaits] at htold
    rcases htold rfl with htold | htold <;> cases htold

/-- A loose turn that is not of the first join of the way is of the others. -/
theorem Loose.tail (h : Loose side m₀ N m (w :: ws) t)
    (hbelow : ¬ Below 0 m (.side w.1 false) t.owner) : Loose side m₀ N m ws t := by
  obtain ⟨u, hu, h⟩ := h
  rcases List.mem_cons.mp hu with rfl | hu
  · exact absurd h.isBelow hbelow
  · exact ⟨u, hu, h⟩

/-! ## The rest -/

section Rest

variable (V : Variants) (side : Nat) (m₀ : Machine) (v : World)

/-- What the rest has noted and logged so far is what has been noted and logged in `w` since `v`,
and it is all that was noted and logged if there are no branches. -/
def Notes (m : Machine) (w : World) : Prop :=
  ∃ es ns, NotedByRest side m₀ m es ns ∧ w.events = v.events ++ es ∧ w.notices = v.notices ++ ns ∧
    ((∀ j, ¬ BranchAt side m₀ j) → m.world.events = m₀.world.events ++ es ∧
      m.world.notices = m₀.world.notices ++ ns)

/-- The state is the one of a lone process, as far as the rest sees it, and `a` carries the rest on.
-/
structure Rest (N : Numbers) (ws : List Wait) (a : Owner) (K : Outcome → Process) (m : Machine)
    (s : Lone) : Prop where
  noted : Notes side m₀ v m s.world
  reaches : ReflTransGen Goes m₀ m
  roots : m.roots = [none]
  world : V.Shows N m.world s.world
  guards : Flags N.guards m.guards s.guards
  waits : V.Waits N m.joins s.guards ws a K

/-- The rest runs, at `p`. -/
structure Underway (N : Numbers) (ws : List Wait) (a : Owner) (K : Outcome → Process) (p : Process)
    (m : Machine) (s : Lone) : Prop extends Rest V side m₀ v N ws a K m s where
  focus : m.focus = some (a, p)
  ready : ∀ t ∈ m.ready, Loose side m₀ N m ws t
  now : ∃ p', V.Now V.Shows N m.world s.world p p' ∧ s.process = p'.andThen K

/-- The turns that carry the rest on: it has a turn to go on, or to tell that it has ended, or it
has told and waits for the second side of a join, or it calls a continuation twice at once. -/
inductive RestTurns (N : Numbers) (ws : List Wait) (a : Owner) (K : Outcome → Process) (m : Machine)
    (s : Lone) : List Wait → List Turn → Prop
  | queued {p p' : Process} (hp : V.Later V.Shows N p p') (hs : s.process = p'.andThen K) :
      RestTurns N ws a K m s [] [.resume a p]
  | telling {j : Nat} {o : Outcome} (ha : a = .side j true) (hs : s.process = K o) :
      RestTurns N ws a K m s [] [.settled j true o]
  | told {j : Nat} {other : Option Fault} {J : Join} {o : Outcome} (hJ : m.joins[j]? = some J)
      (howner : J.owner = a) (hfirst : J.first = some (true, o)) (hnew : ∀ w ∈ ws, w.1 ≠ j)
      (hnext : ∀ e : Settled, e.left = o → Outcome.fault? e.right = other →
        V.Returns N s.guards (J.next e) s.process K) :
      RestTurns N ws a K m s [(j, other)] []
  | racing {j : Nat} {J : Join} {q q' : Process} {k k' : Option Fault → Option Fault → Process}
      (hj : ¬ BranchAt side m₀ j) (hJ : m.joins[j]? = some J) (howner : J.owner = a)
      (hfirst : J.first = none) (hnew : ∀ w ∈ ws, w.1 ≠ j)
      (hnext : J.next = fun e => k (Outcome.fault? e.left) (Outcome.fault? e.right))
      (hq : V.Handed V.Shows N q q') (hk : ∀ f g, V.Later V.Shows N (k f g) (k' f g))
      (hs : s.process = q'.andThen fun o => q'.andThen fun o' =>
        (k' (Outcome.fault? o) (Outcome.fault? o')).andThen K) :
      RestTurns N ws a K m s [] [.resume (.side j true) q, .resume (.side j false) q]

/-- The rest does not run. -/
structure Resting (N : Numbers) (ws : List Wait) (a : Owner) (K : Outcome → Process)
    (extra : List Wait) (ts : List Turn) (m : Machine) (s : Lone) : Prop
    extends Rest V side m₀ v N ws a K m s where
  focus : ∀ {b p}, m.focus = some (b, p) → ∃ j, BranchRuns side m₀ N m (extra ++ ws) b p j
  ready : Among side m₀ N m (extra ++ ws) ts m.ready
  turns : RestTurns V side m₀ N ws a K m s extra ts

/-- The rest is where the lone process is. -/
def Abreast (m : Machine) (s : Lone) : Prop :=
  ∃ N ws a K, (∃ p, Underway V side m₀ v N ws a K p m s) ∨
    ∃ extra ts, Resting V side m₀ v N ws a K extra ts m s

/-- What can come of a step in which the rest runs: it is over, it comes to a branch that the lone
process comes to as well, both go on, or only the rest does, which was awaited, has ended as a side,
or starts a branch beside it. -/
inductive RunsOn (ws : List Wait) (p : Process) (m : Machine) (s : Lone) : Prop
  | closes {o : Outcome} (hfocus : m.focus = some (.root 0, ended o)) (hs : s.Ended o)
  | forks (hm : ReachesFork m) (hs : s.AtFork)
  | moves {m₁ : Machine} {s₁ : Lone} (hgo : Goes m m₁) (hs : TransGen Lone.Goes s s₁)
      (h : Abreast V side m₀ v m₁ s₁)
  | awaited {N : Numbers} {a : Owner} {K : Outcome → Process} {q : Process} {m₁ : Machine}
      (hp : p = .deferred q) (hgo : Goes m m₁) (h : Underway V side m₀ v N ws a K q m₁ s)
  | ends {N : Numbers} {a : Owner} {K : Outcome → Process} {j : Nat} {o : Outcome} {m₁ : Machine}
      (hp : p = ended o) (hgo : Goes m m₁)
      (h : Resting V side m₀ v N ws a K [] [.settled j true o] m₁ s)
  | splits {N : Numbers} {j : Nat} {L : Outcome → Process} {l r : Process} {k : Settled → Process}
      {J : Join} {m₁ : Machine} (hp : p = .both l r k) (hgo : Goes m m₁)
      (hJ : m₁.joins[j]? = some J) (hnext : J.next = k)
      (h : Resting V side m₀ v N ((j, none) :: ws) (.side j true) L [] [.resume (.side j true) l]
        m₁ s)

end Rest

variable {V : Variants} {v : World} {K L : Outcome → Process} {s s' : Lone} {Js Js' : List Join}
  {g g' : List Bool} {o : Outcome}

theorem returns_mono {p q : Process} (h : V.Returns N g p q K) (hN : N.Within N') (hg : Kept g g') :
    V.Returns N' g' p q K := by
  obtain ⟨p', hp, hreturns⟩ := h
  exact ⟨p', hp.mono hN, fun g'' w hg' => hreturns g'' w (hg.trans hg')⟩

theorem waits_mono (h : V.Waits N Js g ws a K) (hN : N.Within N') (hg : Kept g g') :
    V.Waits N' Js g' ws a K := by
  induction h with
  | root => exact .root
  | side _ hJ howner hfirst hnew hnext ih =>
    exact .side ih hJ howner hfirst hnew fun e he => returns_mono (hnext e he) hN hg

/-- The joins on the way stay, and are told at most of a second side that ends as expected. -/
theorem waits_joins (h : V.Waits N Js g ws a K)
    (hJs : ∀ w ∈ ws, ∀ J, Js[w.1]? = some J → ∃ J', Js'[w.1]? = some J' ∧ J'.owner = J.owner ∧
      J'.next = J.next ∧ ∀ left o, J'.first = some (left, o) →
        J.first = some (left, o) ∨ left = false ∧ Outcome.fault? o = w.2) :
    V.Waits N Js' g ws a K := by
  induction h with
  | root => exact .root
  | side _ hJ howner hfirst hnew hnext ih =>
    obtain ⟨J', hJ', howner', hnext', hfirst'⟩ := hJs _ List.mem_cons_self _ hJ
    refine .side (ih fun w hw => hJs w (List.mem_cons_of_mem _ hw)) hJ' (howner'.trans howner)
      (fun left o ho => ?_) hnew (hnext' ▸ hnext)
    rcases hfirst' left o ho with hold | hnew
    · exact hfirst left o hold
    · exact hnew

/-- Whoever carries the rest on was not started by a branch. -/
theorem not_below_of_waits (h : V.Waits N m.joins g ws a K) :
    ¬ Below 0 m (.side j false) a := by
  induction h with
  | root => exact nofun
  | side _ hJ howner _ _ _ ih =>
    intro hbelow
    cases hbelow with
    | side left _ hJ' hbelow =>
      rw [hJ] at hJ'
      cases hJ'
      exact ih (howner ▸ hbelow)

/-! ## What is noted -/

section Notes

variable {u w : World}

theorem Notes.rest (h : Notes side m₀ v m w) (hgo : Goes m m')
    (hrest : ∀ {b p}, m.focus = some (b, p) → ¬ InBranch side m₀ m b)
    (hnoted : Noted m.world w m'.world u) : Notes side m₀ v m' u := by
  obtain ⟨es, ns, hn, hes, hns, hall⟩ := h
  obtain ⟨es', ns', hes', hu, hns', hu'⟩ := hnoted
  refine ⟨es ++ es', ns ++ ns', ?_, ?_, ?_, fun hnone => ?_⟩
  · have hrest := hn.rest hgo hrest
    rwa [hes', hns', List.drop_left, List.drop_left] at hrest
  · rw [hu, hes, List.append_assoc]
  · rw [hu', hns, List.append_assoc]
  · obtain ⟨hm, hm'⟩ := hall hnone
    exact ⟨by rw [hes', hm, List.append_assoc], by rw [hns', hm', List.append_assoc]⟩

theorem Notes.branch (h : Notes side m₀ v m w) (hgo : Goes m m') (hfocus : m.focus = some (b, p))
    (hb : InBranch side m₀ m b) : Notes side m₀ v m' w := by
  obtain ⟨es, ns, hn, hes, hns, -⟩ := h
  obtain ⟨j, hj, -⟩ := id hb
  exact ⟨es, ns, hn.branch hgo hfocus hb, hes, hns, fun hnone => absurd hj (hnone j)⟩

theorem Notes.silent (h : Notes side m₀ v m w) (hgo : ReflTransGen Silent m m')
    (hevents : u.events = w.events) (hnotices : u.notices = w.notices) : Notes side m₀ v m' u := by
  obtain ⟨es, ns, hn, hes, hns, hall⟩ := h
  obtain ⟨hevents', hnotices'⟩ := noted_of_silent hgo
  refine ⟨es, ns, hn.silently hgo, hevents.trans hes, hnotices.trans hns, ?_⟩
  rw [hevents', hnotices']
  exact hall

end Notes

/-! ## The rest runs -/

theorem Rest.not_inBranch (h : Rest V side m₀ v N ws a K m s) : ¬ InBranch side m₀ m a :=
  fun ⟨_, _, hbelow⟩ => not_below_of_waits h.waits hbelow

/-- Nothing is done to the state. -/
theorem Rest.quiet (h : Rest V side m₀ v N ws a K m s) (hgo : Goes m m')
    (hworld : m'.world = m.world) (hguards : m'.guards = m.guards) (hroots : m'.roots = m.roots)
    {ws' : List Wait} (hwaits : V.Waits N m'.joins s.guards ws' b L) :
    Rest V side m₀ v N ws' b L m' s where
  noted := h.noted.silent (.single ⟨hgo, by rw [hworld], by rw [hworld]⟩) rfl rfl
  reaches := h.reaches.tail hgo
  roots := hroots.trans h.roots
  world := hworld ▸ h.world
  guards := hguards ▸ h.guards
  waits := hwaits

/-- Only the process of the lone machine matters less. -/
theorem Rest.alone (h : Rest V side m₀ v N ws a K m s)
    (hs : s' = { s with process := s'.process }) :
    Rest V side m₀ v N ws a K m s' := by
  rw [hs]
  exact { h with }

section Underway

variable {w w' : World} {guards guards' : List Bool} {q q' : Process}

/-- The rest goes on, and so does the lone process. -/
theorem Underway.runs (h : Underway V side m₀ v N ws a K p m s)
    (hgo : Goes m { m with world := w, guards := guards, focus := some (a, q) })
    (hon : Onward m N { m with world := w, guards := guards, focus := some (a, q) } N')
    (hnoted : Noted m.world s.world w w') (hw : V.Shows N' w w')
    (hflags : Flags N'.guards guards guards') (hkept : Kept s.guards guards')
    (hq : V.Now V.Shows N' w w' q q') :
    Underway V side m₀ v N' ws a K q { m with world := w, guards := guards, focus := some (a, q) }
      ⟨guards', w', q'.andThen K⟩ where
  noted := h.noted.rest hgo (fun hfocus => by
    rw [h.focus] at hfocus
    cases hfocus
    exact h.not_inBranch) hnoted
  reaches := h.reaches.tail hgo
  roots := h.roots
  world := hw
  guards := hflags
  waits := waits_mono h.waits hon.toWithin hkept
  focus := rfl
  ready t ht := (h.ready t ht).onward hon
  now := ⟨q', hq, rfl⟩

/-- The rest goes on, and has done nothing to the state. -/
theorem Underway.focusOn (h : Underway V side m₀ v N ws a K p m s) (hgo : Goes m (m.focusOn a q))
    (hq : V.Now V.Shows N m.world s.world q q') :
    Underway V side m₀ v N ws a K q (m.focusOn a q) ⟨s.guards, s.world, q'.andThen K⟩ :=
  h.runs hgo (.of_marks (.single hgo) rfl) (.refl _ _) h.world h.guards (.of_eq rfl) hq

/-- The rest gives up its turn. -/
theorem Underway.queue (h : Underway V side m₀ v N ws a K p m s) (hgo : Goes m (m.idle.queue t))
    (hts : RestTurns V side m₀ N ws a K (m.idle.queue t) s' [] [t])
    (hs : s' = { s with process := s'.process }) :
    Resting V side m₀ v N ws a K [] [t] (m.idle.queue t) s' where
  toRest := (h.toRest.quiet hgo rfl rfl rfl h.waits).alone hs
  focus := nofun
  ready := ⟨m.ready, [], rfl, fun t ht => (h.ready t (by simpa using ht)).onward
    (.of_marks (.single hgo) rfl)⟩
  turns := hts

/-- The rest starts two sides, and the first one carries on what is left of it. -/
theorem Underway.split {l r : Process} {k : Settled → Process} {ts new : List Turn}
    {ws' : List Wait} (h : Underway V side m₀ v N ws a K (.both l r k) m s)
    (hgo : Goes m (m.split a l r k)) (hws : ws ⊆ ws')
    (hready : [.resume (.side m.joins.length true) l, .resume (.side m.joins.length false) r] =
      ts ++ new)
    (hnew : ∀ t ∈ new, Loose side m₀ N (m.split a l r k) ws' t)
    (hwaits : V.Waits N (m.split a l r k).joins s.guards ws' b L)
    (hts : RestTurns V side m₀ N ws' b L (m.split a l r k) s' [] ts)
    (hs : s' = { s with process := s'.process }) :
    Resting V side m₀ v N ws' b L [] ts (m.split a l r k) s' where
  toRest := (h.toRest.quiet hgo rfl rfl rfl hwaits).alone hs
  focus := nofun
  ready := by
    refine ⟨m.ready, new, congrArg (m.ready ++ ·) hready, fun t ht => ?_⟩
    rcases List.mem_append.mp ht with ht | ht
    · exact ((h.ready t ht).onward (.of_marks (.single hgo) rfl)).mono hws
    · exact hnew t ht
  turns := hts

end Underway

theorem lt_of_waits (h : V.Waits N Js g ws a K) (hw : w ∈ ws) : w.1 < Js.length := by
  induction h with
  | root => cases hw
  | side _ hJ _ _ _ _ ih =>
    rcases List.mem_cons.mp hw with rfl | hw
    · exact (List.getElem?_eq_some_iff.mp hJ).1
    · exact ih hw

/-- A join that is made later is not on the way. -/
theorem waits_append (h : V.Waits N Js g ws a K) (J : Join) :
    V.Waits N (Js ++ [J]) g ws a K := by
  refine waits_joins h fun w hw I hI => ⟨I, ?_, rfl, rfl, fun _ _ => .inl⟩
  rwa [List.getElem?_append_left (lt_of_waits h hw)]

theorem Rest.off (h : Rest V side m₀ v N ws a K m s) :
    N.Off m.guards.length m.world.marks.length {} where
  guards := nofun
  marks := nofun
  guards_lt hi := (h.guards.lt hi).1
  marks_lt hi := (h.world.marks.lt hi).1

/-- The continuation of a chain is no chain of its own. -/
theorem ne_dispatch {q q' : Process} (h : Variants.Proceeds N q q') (i x : Nat) :
    q ≠ dispatch i x leaf ∧ q' ≠ dispatch i x leaf := by
  cases h <;> exact ⟨nofun, nofun⟩

theorem Underway.process_eq (h : Underway V side m₀ v N ws a K (ended o) m s) :
    s.process = K o := by
  obtain ⟨p', hp, hs⟩ := h.now
  cases o <;> cases hp <;> exact hs

/-- The rest ends as a side. -/
theorem Underway.ends_side (h : Underway V side m₀ v N (w :: ws) a K (ended o) m s) :
    ∃ m₁, Goes m m₁ ∧ Resting V side m₀ v N (w :: ws) a K [] [.settled w.1 true o] m₁ s := by
  have hgo : Goes m (m.finish a o) := by
    rw [Goes, step_of_focus h.focus]
    cases o <;> rfl
  have hs := h.process_eq
  have hwaits := h.waits
  cases hwaits with
  | side => exact ⟨_, hgo, h.queue hgo (.telling rfl hs) rfl⟩

/-- The rest ends. -/
theorem Underway.ends (h : Underway V side m₀ v N ws a K (ended o) m s) :
    RunsOn V side m₀ v ws (ended o) m s := by
  rcases ws with _ | ⟨w, ws⟩
  · have hs := h.process_eq
    have hfocus := h.focus
    have hwaits := h.waits
    cases hwaits with
    | root => exact .closes hfocus hs
  · obtain ⟨m₁, hgo, h₁⟩ := h.ends_side
    exact .ends rfl hgo h₁

/-- The rest starts a branch beside it. -/
theorem Underway.aside (hV : V.Forks side) {q q' r : Process} {k k' : Outcome → Process}
    (h : Underway V side m₀ v N ws a K (.both q r fun e => (joined e).andThen k) m s)
    (hr : V.beside r) (hq : V.Later V.Shows N q q') (hk : V.Follows V.Shows N k k')
    (hs : s.process = (q'.andThen k').andThen K) :
    RunsOn V side m₀ v ws (.both q r fun e => (joined e).andThen k) m s := by
  obtain ⟨x, rfl⟩ := hV.beside hr
  have hgo : Goes m (m.split a q (dispatch side x leaf) fun e => (joined e).andThen k) :=
    step_of_focus h.focus
  have hj : BranchAt side m₀ m.joins.length := ⟨m, a, q, x, _, h.reaches, h.focus, rfl⟩
  have hJ : (m.split a q (dispatch side x leaf) fun e => (joined e).andThen k).joins[
      m.joins.length]? = some ⟨a, fun e => (joined e).andThen k, none⟩ :=
    List.getElem?_concat_length
  have hwaits : V.Waits N (m.split a q (dispatch side x leaf) fun e => (joined e).andThen k).joins
      s.guards ((m.joins.length, none) :: ws) (.side m.joins.length true)
      fun o => (k' o).andThen K := by
    refine .side (waits_append h.waits _) hJ rfl nofun
      (fun w hw => (lt_of_waits h.waits hw).ne) fun e he => ?_
    refine ⟨k' e.left, ?_, fun _ _ _ => .refl⟩
    dsimp only
    rw [Variants.joined_andThen_left e he]
    rcases e.left with f | u
    · exact hk _ _ (.refl _)
    · exact hk _ _ (Outcome.alike_ok .null u)
  have hbranch : Loose side m₀ N (m.split a q (dispatch side x leaf) fun e => (joined e).andThen k)
      ((m.joins.length, none) :: ws)
      (.resume (.side m.joins.length false) (dispatch side x leaf)) :=
    ⟨_, List.mem_cons_self, .goes hj .branch (Trait.keepsOff_dispatch h.off side x)⟩
  exact .splits rfl hgo hJ rfl (h.split hgo (List.subset_cons_self _ _)
    (List.singleton_append (l := _)).symm (List.forall_mem_singleton.mpr hbranch) hwaits
    (.queued hq (hs.trans (andThen_andThen q' k' K))) rfl)

/-- The rest calls a continuation twice at once. -/
theorem Underway.race {q q' : Process} {k k' : Option Fault → Option Fault → Process}
    (h : Underway V side m₀ v N ws a K
      (.both q q fun e => k (Outcome.fault? e.left) (Outcome.fault? e.right)) m s)
    (hq : V.Handed V.Shows N q q') (hk : ∀ f g, V.Later V.Shows N (k f g) (k' f g))
    (hs : s.process = (Process.both q' q' fun e =>
      k' (Outcome.fault? e.left) (Outcome.fault? e.right)).andThen K) :
    RunsOn V side m₀ v ws
      (.both q q fun e => k (Outcome.fault? e.left) (Outcome.fault? e.right)) m s := by
  have hgo : Goes m (m.split a q q fun e => k (Outcome.fault? e.left) (Outcome.fault? e.right)) :=
    step_of_focus h.focus
  have hJ : (m.split a q q fun e => k (Outcome.fault? e.left) (Outcome.fault? e.right)).joins[
      m.joins.length]? = some ⟨a, fun e => k (Outcome.fault? e.left) (Outcome.fault? e.right), none⟩
    := List.getElem?_concat_length
  have hrace : Lone.Goes s ⟨s.guards, s.world, q'.andThen fun o => q'.andThen fun o' =>
      (k' (Outcome.fault? o) (Outcome.fault? o')).andThen K⟩ := by
    obtain ⟨g, w, p⟩ := s
    obtain rfl : p = _ := hs
    exact .race fun i x => (ne_dispatch hq.proceeds i x).2
  refine .moves hgo (.single hrace) ⟨N, ws, a, K, .inr ⟨[],
    [.resume (.side m.joins.length true) q, .resume (.side m.joins.length false) q], ?_⟩⟩
  refine h.split hgo (List.Subset.refl ws) (List.append_nil _).symm (List.forall_mem_nil _)
    (waits_append h.waits _) ?_ rfl
  refine .racing ?_ hJ rfl rfl (fun w hw => (lt_of_waits h.waits hw).ne) rfl hq hk rfl
  exact not_branchAt h.reaches h.focus fun x => (ne_dispatch hq.proceeds side x).1

/-- A step in which the rest runs. -/
theorem Underway.step (hV : V.Forks side) (h : Underway V side m₀ v N ws a K p m s) :
    RunsOn V side m₀ v ws p m s := by
  have hgo : Goes m (m.advance a p) := step_of_focus h.focus
  have hnow : ∀ {q q' : Process}, V.Later V.Shows N q q' → V.Now V.Shows N m.world s.world q q' :=
    fun hq => hq _ _ _ (.refl N) h.world (hV.kept _)
  obtain ⟨p', hp, hs⟩ := h.now
  obtain ⟨g, w, r⟩ := s
  obtain rfl : r = p'.andThen K := hs
  cases hp with
  | value u => exact h.ends (o := .ok u)
  | raised f => exact h.ends (o := .error f)
  | deferred hq =>
    have hruns := h.focusOn hgo (hnow hq)
    exact .awaited rfl hgo hruns
  | read hq => exact .moves hgo (.single .read) ⟨N, ws, a, K, .inl ⟨_, h.focusOn hgo hq⟩⟩
  | @write _ N₁ _ _ f f' q q' hN hguards hw hdeed hq =>
    have hon : Onward m N { m with world := f m.world, focus := some (a, q) } N₁ :=
      { toWithin := hN
        goes := .single hgo
        newGuards := fun hi => .inl (hguards ▸ hi)
        newMarks := fun hi => (hdeed.made hi).imp_right fun hnew => ⟨hnew.1.ge, hnew.2.2⟩
        marks_le := hdeed.length }
    exact .moves hgo (.single .write) ⟨N₁, ws, a, K, .inl ⟨_, h.runs hgo hon hdeed.noted hw
      (hguards ▸ h.guards) (.of_eq rfl) (hq (hV.kept _))⟩⟩
  | @newGuard _ _ _ k k' hq =>
    have hruns := h.runs hgo (onward_newGuard hgo g.length) (.refl _ _)
      (Variants.views_shows.guard h.world _ _) (h.guards.add rfl) (kept_append g [false]) (hq _ _)
    exact .moves hgo (.single .newGuard) ⟨_, ws, a, K, .inl ⟨_, hruns⟩⟩
  | @checkGuard _ _ _ i i' k k' hi hq =>
    have hused : g[i']?.getD false = m.used i := h.guards.getD hi
    have hcheck : Lone.Goes ⟨g, w, (Process.checkGuard i' k').andThen K⟩
        ⟨g, w, (k' (m.used i)).andThen K⟩ := hused ▸ .checkGuard
    exact .moves hgo (.single hcheck) ⟨N, ws, a, K, .inl ⟨_, h.focusOn hgo (hq _)⟩⟩
  | useGuard hi hq =>
    exact .moves hgo (.single .useGuard) ⟨N, ws, a, K, .inl ⟨_, h.runs hgo
      (.of_marks (.single hgo) rfl) (.refl _ _) h.world (h.guards.set hi rfl) (kept_set g _) hq⟩⟩
  | pause hq =>
    exact .moves hgo (.single .pause) ⟨N, ws, a, K, .inr ⟨[], _, h.queue hgo (.queued hq rfl) rfl⟩⟩
  | race hs hq hk => exact h.race ⟨hs, hq⟩ hk rfl
  | fork hq hi hk => exact .forks ⟨_, _, _, _, _, h.focus⟩ ⟨_, _, _, _, rfl⟩
  | @enter _ _ _ _ _ x _ _ _ _ hl hs hnext hk =>
    cases hl with
    | chains hl =>
      have hcall := hnow
        (Variants.later_entered Variants.views_shows hV.faithful hl (x := x) ⟨hs, hnext⟩ hk)
      have hruns := h.focusOn hgo hcall
      rw [andThen_andThen] at hruns
      exact .moves hgo (.single .enter) ⟨N, ws, a, K, .inl ⟨_, hruns⟩⟩
    | left hc =>
      rw [hV.left] at hc
      cases hc
    | right hc =>
      rw [hV.right] at hc
      cases hc
  | aside hb hq hk => exact h.aside hV hb hq hk rfl

end Machine

end UpdateDispatch
