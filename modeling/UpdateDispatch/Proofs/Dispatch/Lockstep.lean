import UpdateDispatch.Proofs.Dispatch.Sequence

/-!
# Machines in lockstep

Two machines that run the same functions, one of them through nested chains, are `Related`: they
have the same state, and their processes, turns and joins are alike, one by one. Each of them takes
its own number of steps to the next related machines (`Related.progress`), so one comes to its end
if the other one does, in the same state and with the same fault (`endsWith_sequence`).
-/

namespace UpdateDispatch

open Relation

namespace Machine

open Process

variable {m m' m₁ : Machine} {a : Owner} {p q : Process} {w w' : World} {f : Option Fault}

/-! ## Ends of runs -/

/-- The machine takes a step. -/
abbrev Goes (m m' : Machine) : Prop := m.step = some m'

/-- The run of a machine with one root comes to its end, in the state `w` and with the fault `f`,
if there is one. -/
def EndsWith (m : Machine) (w : World) (f : Option Fault) : Prop :=
  ∃ n o, (run n m).step = none ∧ (run n m).world = w ∧ (run n m).roots = [some o] ∧
    Outcome.fault? o = f

theorem run_of_goes (h : Goes m m') (n : Nat) : run (n + 1) m = run n m' := by rw [run, h]

theorem run_of_stopped (h : m.step = none) (n : Nat) : run n m = m := by
  cases n with
  | zero => rfl
  | succ n => rw [run, h]

theorem run_add (n k : Nat) (m : Machine) : run (n + k) m = run k (run n m) := by
  induction n generalizing m with
  | zero =>
    rw [Nat.zero_add]
    rfl
  | succ n ih =>
    rw [Nat.add_right_comm]
    rcases hstep : m.step with _ | s
    · rw [run_of_stopped hstep, run_of_stopped hstep, run_of_stopped hstep]
    · rw [run_of_goes hstep, run_of_goes hstep, ih]

theorem run_add_of_stopped {n : Nat} (h : (run n m).step = none) (k : Nat) :
    run (n + k) m = run n m := by rw [run_add, run_of_stopped h]

/-- A run to the end passes what the machine comes to. -/
theorem run_of_transGen (h : TransGen Goes m m₁) {n : Nat} (hend : (run n m).step = none) :
    ∃ k < n, run k m₁ = run n m := by
  induction h using TransGen.head_induction_on generalizing n with
  | @single m hgo =>
    cases n with
    | zero =>
      rw [run, show m.step = _ from hgo] at hend
      cases hend
    | succ n => exact ⟨n, Nat.lt_succ_self n, (run_of_goes hgo n).symm⟩
  | @head m s hgo _ ih =>
    cases n with
    | zero =>
      rw [run, show m.step = _ from hgo] at hend
      cases hend
    | succ n =>
      rw [run_of_goes hgo] at hend ⊢
      obtain ⟨k, hk, heq⟩ := ih hend
      exact ⟨k, Nat.lt_succ_of_lt hk, heq⟩

theorem EndsWith.of_reaches (h : ReflTransGen Goes m m') (hend : EndsWith m' w f) :
    EndsWith m w f := by
  induction h using ReflTransGen.head_induction_on with
  | refl => exact hend
  | head hgo _ ih =>
    obtain ⟨n, o, hstep, hworld, hroots, hfault⟩ := ih
    exact ⟨n + 1, o, by rwa [run_of_goes hgo], by rwa [run_of_goes hgo], by rwa [run_of_goes hgo],
      hfault⟩

theorem EndsWith.later (h : ReflTransGen Goes m m') (hend : EndsWith m w f) : EndsWith m' w f := by
  rcases reflTransGen_iff_eq_or_transGen.mp h with rfl | h
  · exact hend
  · obtain ⟨n, o, hstep, hworld, hroots, hfault⟩ := hend
    obtain ⟨k, -, heq⟩ := run_of_transGen h hstep
    rw [← heq] at hstep hworld hroots
    exact ⟨k, o, hstep, hworld, hroots, hfault⟩

/-- A run has one end. -/
theorem EndsWith.unique {f' : Option Fault} (h : EndsWith m w f) (h' : EndsWith m w' f') :
    w' = w ∧ f' = f := by
  obtain ⟨n, o, hstep, rfl, hroots, rfl⟩ := h
  obtain ⟨n', o', hstep', rfl, hroots', rfl⟩ := h'
  have hrun : run n' m = run n m := by
    rw [← run_add_of_stopped hstep n', ← run_add_of_stopped hstep' n, Nat.add_comm]
  rw [hrun] at hroots' ⊢
  obtain rfl : o = o' := by simpa using hroots.symm.trans hroots'
  exact ⟨rfl, rfl⟩

/-- Roots that have ended alike. -/
abbrev RootsAlike (roots roots' : List (Option Outcome)) : Prop :=
  List.Forall₂ (Option.Rel Outcome.Alike) roots roots'

/-- A relation between machines that have come to their end alike or go on to related ones. -/
def Matches (R : Machine → Machine → Prop) : Prop :=
  ∀ ⦃m m'⦄, R m m' →
    (m.step = none ∧ m'.step = none ∧ m.world = m'.world ∧ RootsAlike m.roots m'.roots) ∨
      ∃ m₁ m₁', TransGen Goes m m₁ ∧ TransGen Goes m' m₁' ∧ R m₁ m₁'

theorem Matches.flip {R : Machine → Machine → Prop} (hR : Matches R) :
    Matches fun m m' => R m' m := by
  intro m m' h
  rcases hR h with ⟨hstep, hstep', hworld, hroots⟩ | ⟨m₁, m₁', hgo, hgo', hrelated⟩
  · refine .inl ⟨hstep', hstep, hworld.symm, hroots.flip.imp fun o o' ho => ?_⟩
    cases ho with
    | none => exact .none
    | some ho => exact .some ho.symm
  · exact .inr ⟨m₁', m₁, hgo', hgo, hrelated⟩

/-- Machines that go on in step with each other come to their ends alike. -/
theorem EndsWith.of_matches {R : Machine → Machine → Prop} (hR : Matches R) (h : R m m')
    (hend : EndsWith m w f) : EndsWith m' w f := by
  obtain ⟨n, o, hstep, hworld, hroots, hfault⟩ := hend
  induction n using Nat.strong_induction_on generalizing m m' with
  | _ n ih =>
    rcases hR h with ⟨hnone, hnone', heq, halike⟩ | ⟨m₁, m₁', hgo, hgo', hrelated⟩
    · rw [run_of_stopped hnone] at hworld hroots
      rw [hroots] at halike
      generalize hroots' : m'.roots = roots at halike
      cases halike with
      | cons ho hnil =>
        cases hnil
        cases ho with
        | some ho => exact ⟨0, _, hnone', heq.symm.trans hworld, hroots', ho.symm.trans hfault⟩
    · obtain ⟨k, hk, heq⟩ := run_of_transGen hgo hstep
      rw [← heq] at hstep hworld hroots
      exact .of_reaches hgo'.to_reflTransGen (ih k hk hrelated hstep hworld hroots)

/-! ## Steps of one process -/

theorem reaches_strip (hfocus : m.focus = some (a, p)) :
    ReflTransGen Goes m (m.focusOn a p.strip) := by
  induction p generalizing m with
  | deferred p ih => exact .head (step_of_focus hfocus) (ih (m := m.focusOn a p) rfl)
  | _ =>
    have hself : ∀ p, m.focus = some (a, p) → m.focusOn a p = m := by
      intro p hfocus
      rw [focusOn, ← hfocus]
    exact hself _ hfocus ▸ .refl

/-- The machine with other guards and another running process. -/
def moved (a : Owner) (guards : List Bool) (p : Process) (m : Machine) : Machine :=
  { m with guards, focus := some (a, p) }

theorem strip_eq_ended {o : Outcome} (h : p.performed = ended o) : p.strip = ended o := by
  induction p with
  | deferred p ih => exact ih h
  | value v | raised f => exact h
  | _ => cases o <;> cases h

/-- A running process comes to the first step that it takes when it is called and awaited. -/
theorem reaches_lifted (hfocus : m.focus = some (a, p)) (h : ∀ o, p.performed ≠ ended o) :
    ∃ p₁, Lifted performed p₁ p.performed ∧ ReflTransGen Goes m (m.focusOn a p₁) := by
  refine ⟨p.strip, ?_, reaches_strip hfocus⟩
  have hstop : ¬ Stopped p.strip := by
    intro hstop
    obtain ⟨o, ho⟩ := ended_of_stopped_strip hstop
    refine h o ?_
    rw [← performed_strip]
    generalize p.strip = p₁ at ho ⊢
    cases ho <;> rfl
  have hlifted : Lifted performed p.strip p.strip.performed :=
    Surrounds.lifted (.andThen ended .hole) hstop
  rwa [performed_strip] at hlifted

theorem goes_of_move {guards' : List Bool} {q : Process}
    (h : Move m.world (m.guards, p.performed) (guards', q)) (hfocus : m.focus = some (a, p)) :
    ∃ p', p'.performed = q ∧ TransGen Goes m (m.moved a guards' p') := by
  obtain ⟨p₁, hlifted, hreach⟩ := reaches_lifted hfocus fun o heq => by
    rw [heq] at h
    cases o <;> cases h
  generalize p.performed = P at h hlifted
  cases hlifted <;> cases h
  case read.read k => exact ⟨_, rfl, .tail' hreach rfl⟩
  case newGuard.newGuard k => exact ⟨_, rfl, .tail' hreach rfl⟩
  case checkGuard.checkGuard k => exact ⟨_, rfl, .tail' hreach rfl⟩
  case useGuard.useGuard => exact ⟨_, rfl, .tail' hreach rfl⟩
  case enter.enter k => exact ⟨_, performed_andThen _ k, .tail' hreach rfl⟩

theorem goes_of_moves {guards' : List Bool} {q : Process}
    (h : TransGen (Move m.world) (m.guards, p.performed) (guards', q))
    (hfocus : m.focus = some (a, p)) :
    ∃ p', p'.performed = q ∧ TransGen Goes m (m.moved a guards' p') := by
  generalize hend : (guards', q) = last at h
  induction h generalizing guards' q with
  | single hmove =>
    cases hend
    exact goes_of_move hmove hfocus
  | @tail mid last _ hmove ih =>
    cases hend
    obtain ⟨p', hp', hgo⟩ := ih (show (mid.1, mid.2) = mid from rfl)
    obtain ⟨p'', hp'', hgo'⟩ := goes_of_move (m := m.moved a mid.1 p') (by rwa [hp']) rfl
    exact ⟨p'', hp'', hgo.trans hgo'⟩

/-! ## Related machines -/

variable {chain : Nat → Option Link} {x : Nat} {t t' : Standing}

/-- Processes that are alike when they are called and awaited. -/
def Like (chain : Nat → Option Link) (x : Nat) (t : Standing) (p q : Process) : Prop :=
  Process.Alike (Called chain x t) p.performed q.performed

/-- Turns of the same owner for processes that are alike, or for outcomes that are. -/
inductive TurnsLike (chain : Nat → Option Link) (x : Nat) (t : Standing) : Turn → Turn → Prop
  | resume (a : Owner) {p q : Process} (h : Like chain x t p q) :
      TurnsLike chain x t (.resume a p) (.resume a q)
  | settled (j : Nat) (left : Bool) {o o' : Outcome} (h : Outcome.Alike o o') :
      TurnsLike chain x t (.settled j left o) (.settled j left o')

/-- Joins of the same owner that go on alike. -/
structure JoinsLike (chain : Nat → Option Link) (x : Nat) (t : Standing) (J J' : Join) : Prop where
  owner : J.owner = J'.owner
  next : ∀ s s', Settled.Alike s s' → Like chain x t (J.next s) (J'.next s')
  first : Option.Rel (fun e e' => e.1 = e'.1 ∧ Outcome.Alike e.2 e'.2) J.first J'.first

/-- Two machines in the same state whose processes are alike, one by one. -/
structure Related (chain : Nat → Option Link) (x : Nat) (t : Standing) (m m' : Machine) :
    Prop where
  guards : m.guards = t.guards
  guards' : m'.guards = t.guards'
  world : m.world = m'.world
  agrees : m.world.Agrees chain
  valid : t.Valid chain
  tasks : m.tasks = [] ∧ m'.tasks = []
  focus : Option.Rel (fun e e' => e.1 = e'.1 ∧ Like chain x t e.2 e'.2) m.focus m'.focus
  ready : List.Forall₂ (TurnsLike chain x t) m.ready m'.ready
  joins : List.Forall₂ (JoinsLike chain x t) m.joins m'.joins
  roots : RootsAlike m.roots m'.roots

variable {o o' : Outcome}

theorem Like.mono (h : Like chain x t p q)
    (hsite : ∀ {fs n n'}, Site x t fs n n' → Site x t' fs n n') : Like chain x t' p q :=
  Process.Alike.mono h fun hcalled => hcalled.mono hsite

theorem TurnsLike.mono {turn turn' : Turn} (h : TurnsLike chain x t turn turn')
    (hsite : ∀ {fs n n'}, Site x t fs n n' → Site x t' fs n n') :
    TurnsLike chain x t' turn turn' := by
  cases h with
  | resume a h => exact .resume a (h.mono hsite)
  | settled j left h => exact .settled j left h

theorem JoinsLike.mono {J J' : Join} (h : JoinsLike chain x t J J')
    (hsite : ∀ {fs n n'}, Site x t fs n n' → Site x t' fs n n') : JoinsLike chain x t' J J' :=
  ⟨h.owner, fun s s' hs => (h.next s s' hs).mono hsite, h.first⟩

theorem Related.idle (h : Related chain x t m m') : Related chain x t m.idle m'.idle :=
  { h with focus := .none }

theorem Related.focusOn (h : Related chain x t m m') (a : Owner) (hp : Like chain x t p q) :
    Related chain x t (m.focusOn a p) (m'.focusOn a q) :=
  { h with focus := .some ⟨rfl, hp⟩ }

theorem Related.queue (h : Related chain x t m m') {turn turn' : Turn}
    (hturn : TurnsLike chain x t turn turn') :
    Related chain x t (m.queue turn) (m'.queue turn') :=
  { h with ready := List.rel_append h.ready (.cons hturn .nil) }

theorem forall₂_set {α β : Type} {R : α → β → Prop} {as : List α} {bs : List β} {a : α} {b : β}
    (h : List.Forall₂ R as bs) (hab : R a b) (i : Nat) :
    List.Forall₂ R (as.set i a) (bs.set i b) := by
  induction h generalizing i with
  | nil => exact .nil
  | cons h hrest ih =>
    cases i with
    | zero => exact .cons hab hrest
    | succ i => exact .cons h (ih i)

theorem forall₂_getElem? {α β : Type} {R : α → β → Prop} {as : List α} {bs : List β}
    (h : List.Forall₂ R as bs) (i : Nat) : Option.Rel R as[i]? bs[i]? := by
  induction h generalizing i with
  | nil => exact .none
  | cons h _ ih =>
    cases i with
    | zero => exact .some h
    | succ i => exact ih i

theorem Related.finish (h : Related chain x t m m') (a : Owner) (ho : Outcome.Alike o o') :
    Related chain x t (m.finish a o) (m'.finish a o') := by
  cases a with
  | root i => exact { h.idle with roots := forall₂_set h.roots (.some ho) i }
  | side j left => exact h.idle.queue (.settled j left ho)
  | shared task =>
    obtain ⟨htasks, htasks'⟩ := h.tasks
    simpa only [Machine.finish, htasks, htasks', List.getElem?_nil, List.map_nil, List.append_nil,
      List.set_nil] using { h.idle with tasks := ⟨rfl, rfl⟩ }

theorem settled_alike_pair {first other first' other' : Outcome} (left : Bool)
    (h : Outcome.Alike first first') (h' : Outcome.Alike other other') :
    Settled.Alike (pair left first other) (pair left first' other') := by
  cases left
  · exact ⟨h', h, rfl⟩
  · exact ⟨h, h', rfl⟩

theorem Related.settle (h : Related chain x t m m') (j : Nat) (left : Bool)
    (ho : Outcome.Alike o o') : Related chain x t (m.settle j left o) (m'.settle j left o') := by
  have hjoin := forall₂_getElem? h.joins j
  unfold Machine.settle
  generalize m.joins[j]? = J? at hjoin
  generalize m'.joins[j]? = J'? at hjoin
  cases hjoin with
  | none => exact h
  | @some J J' hJ =>
    have hfirst := hJ.first
    dsimp only
    generalize hF : J.first = F at hfirst
    generalize hF' : J'.first = F' at hfirst
    cases hfirst with
    | none =>
      have htold : JoinsLike chain x t { J with first := some (left, o) }
          { J' with first := some (left, o') } := ⟨hJ.owner, hJ.next, .some ⟨rfl, ho⟩⟩
      exact { h with joins := forall₂_set h.joins htold j }
    | @some e e' he =>
      obtain ⟨first, o₁⟩ := e
      obtain ⟨first', o₁'⟩ := e'
      obtain ⟨heq, ho₁⟩ := he
      obtain rfl : first = first' := heq
      dsimp only
      rw [← hJ.owner]
      exact h.queue (.resume J.owner (hJ.next _ _ (settled_alike_pair first ho₁ ho)))

/-- Two processes that start two sides each. -/
theorem Related.split (h : Related chain x t m m') (a : Owner) {l r l' r' : Process}
    {k k' : Settled → Process} (hl : Like chain x t l l') (hr : Like chain x t r r')
    (hk : ∀ s s', Settled.Alike s s' → Like chain x t (k s) (k' s')) :
    Related chain x t (m.split a l r k) (m'.split a l' r' k') := by
  have hlength : m'.joins.length = m.joins.length := h.joins.length_eq.symm
  unfold Machine.split
  rw [hlength]
  exact { h.idle with
    joins := List.rel_append h.joins (.cons ⟨rfl, hk, .none⟩ .nil)
    ready := List.rel_append h.ready (.cons (.resume _ hl) (.cons (.resume _ hr) .nil)) }

theorem Related.write (h : Related chain x t m m') {g : World → World}
    (hg : ∀ w, (g w).composers = w.composers) :
    Related chain x t { m with world := g m.world } { m' with world := g m'.world } := by
  exact { h with world := congrArg g h.world, agrees := h.agrees.congr (hg m.world) }

/-- Related machines go on with processes that have moved. -/
theorem Related.moved (h : Related chain x t m m')
    (hsite : ∀ {fs n n'}, Site x t fs n n' → Site x t' fs n n') (hvalid : t'.Valid chain)
    (a : Owner) (hp : Like chain x t' p q) :
    Related chain x t' (m.moved a t'.guards p) (m'.moved a t'.guards' q) where
  guards := rfl
  guards' := rfl
  world := h.world
  agrees := h.agrees
  valid := hvalid
  tasks := h.tasks
  focus := .some ⟨rfl, hp⟩
  ready := h.ready.imp fun _ _ hturn => hturn.mono hsite
  joins := h.joins.imp fun _ _ hjoin => hjoin.mono hsite
  roots := h.roots

theorem goes_finish (hfocus : m.focus = some (a, p)) (h : p.performed = ended o) :
    TransGen Goes m (m.finish a o) := by
  have hreach := reaches_strip hfocus
  rw [strip_eq_ended h] at hreach
  refine .tail' hreach ?_
  cases o <;> cases a <;> rfl

theorem goes_read {k : World → Process} (hfocus : m.focus = some (a, p))
    (h : p.performed = .read k) :
    ∃ p', p'.performed = k m.world ∧ TransGen Goes m (m.focusOn a p') := by
  obtain ⟨p₁, hlifted, hreach⟩ :=
    reaches_lifted hfocus fun o heq => by cases o <;> cases h.symm.trans heq
  rw [h] at hlifted
  cases hlifted
  exact ⟨_, rfl, .tail' hreach rfl⟩

theorem goes_write {g : World → World} {P : Process} (hfocus : m.focus = some (a, p))
    (h : p.performed = .write g P) : ∃ p', p'.performed = P ∧
      TransGen Goes m (focusOn a p' { m with world := g m.world }) := by
  obtain ⟨p₁, hlifted, hreach⟩ :=
    reaches_lifted hfocus fun o heq => by cases o <;> cases h.symm.trans heq
  rw [h] at hlifted
  cases hlifted
  exact ⟨_, rfl, .tail' hreach rfl⟩

theorem goes_pause {P : Process} (hfocus : m.focus = some (a, p)) (h : p.performed = .pause P) :
    ∃ p', p'.performed = P ∧ TransGen Goes m (m.idle.queue (.resume a p')) := by
  obtain ⟨p₁, hlifted, hreach⟩ :=
    reaches_lifted hfocus fun o heq => by cases o <;> cases h.symm.trans heq
  rw [h] at hlifted
  cases hlifted
  exact ⟨_, rfl, .tail' hreach rfl⟩

theorem goes_both {l r : Process} {k : Settled → Process} (hfocus : m.focus = some (a, p))
    (h : p.performed = .both l r k) :
    ∃ k', (∀ s, (k' s).performed = k s) ∧ TransGen Goes m (m.split a l r k') := by
  obtain ⟨p₁, hlifted, hreach⟩ :=
    reaches_lifted hfocus fun o heq => by cases o <;> cases h.symm.trans heq
  rw [h] at hlifted
  cases hlifted
  exact ⟨_, fun _ => rfl, .tail' hreach rfl⟩

theorem goes_registering {s : Step} {k : Outcome → Process} (hfocus : m.focus = some (a, p))
    (h : p.performed = (registering s).andThen k) :
    ∃ p', p'.performed = k (registered s m.world) ∧
      TransGen Goes m (focusOn a p' { m with world := ((Build.step s).outcome m.world).2 }) := by
  rw [registering_andThen] at h
  obtain ⟨q, hq, hgo⟩ := goes_read hfocus h
  obtain ⟨p', hp', hgo'⟩ := goes_write (m := m.focusOn a q) rfl hq
  exact ⟨p', hp', hgo.trans hgo'⟩

/-- Both machines register the same, where no composer counts. -/
theorem Related.register (h : Related chain x t m m') (hchain : ∀ id, chain id = none)
    {s : Step} {k k' : Outcome → Process} (hk : Follow (Called chain x t) k k')
    (hfocus : m.focus = some (a, p)) (hfocus' : m'.focus = some (a, q))
    (hp : p.performed = (registering s).andThen k) (hq : q.performed = (registering s).andThen k') :
    ∃ t' m₁ m₁', TransGen Goes m m₁ ∧ TransGen Goes m' m₁' ∧ Related chain x t' m₁ m₁' := by
  obtain ⟨p', hp', hgo⟩ := goes_registering hfocus hp
  obtain ⟨q', hq', hgo'⟩ := goes_registering hfocus' hq
  rw [← h.world] at hq' hgo'
  have hagrees : ∀ w : World, w.Agrees chain := fun w _ _ hl => by
    rw [hchain] at hl
    cases hl
  have hrelated : Related chain x t
      { m with world := ((Build.step s).outcome m.world).2 }
      { m' with world := ((Build.step s).outcome m.world).2 } :=
    { h with world := rfl, agrees := hagrees _ }
  refine ⟨t, _, _, hgo, hgo', hrelated.focusOn a ?_⟩
  rw [Like, hp', hq']
  exact hk _ _ (.refl _)

/-- Related machines with a running process come to related machines again. -/
theorem Related.progress_focus (h : Related chain x t m m') (hfocus : m.focus = some (a, p))
    (hfocus' : m'.focus = some (a, q)) (hlike : Like chain x t p q) :
    ∃ t' m₁ m₁', TransGen Goes m m₁ ∧ TransGen Goes m' m₁' ∧ Related chain x t' m₁ m₁' := by
  have hmeets : Meets chain m.world x t p.performed q.performed →
      ∃ t' m₁ m₁', TransGen Goes m m₁ ∧ TransGen Goes m' m₁' ∧ Related chain x t' m₁ m₁' := by
    rintro ⟨t', P, Q, hmoves, hmoves', hsite, hvalid, halike⟩
    rw [← h.guards] at hmoves
    rw [← h.guards', h.world] at hmoves'
    obtain ⟨p', rfl, hgo⟩ := goes_of_moves hmoves hfocus
    obtain ⟨q', rfl, hgo'⟩ := goes_of_moves hmoves' hfocus'
    exact ⟨t', _, _, hgo, hgo', h.moved hsite hvalid a halike⟩
  unfold Like at hlike
  generalize hP : p.performed = P at hlike hmeets
  generalize hQ : q.performed = Q at hlike hmeets
  cases hlike with
  | value v v' =>
    exact ⟨t, _, _, goes_finish (o := .ok v) hfocus hP, goes_finish (o := .ok v') hfocus' hQ,
      h.finish a (Outcome.alike_ok v v')⟩
  | raised f =>
    exact ⟨t, _, _, goes_finish (o := .error f) hfocus hP, goes_finish (o := .error f) hfocus' hQ,
      h.finish a (.refl _)⟩
  | read hk =>
    obtain ⟨p', hp', hgo⟩ := goes_read hfocus hP
    obtain ⟨q', hq', hgo'⟩ := goes_read hfocus' hQ
    refine ⟨t, _, _, hgo, hgo', h.focusOn a ?_⟩
    rw [Like, hp', hq', ← h.world]
    exact hk m.world
  | write hg hp =>
    obtain ⟨p', hp', hgo⟩ := goes_write hfocus hP
    obtain ⟨q', hq', hgo'⟩ := goes_write hfocus' hQ
    refine ⟨t, _, _, hgo, hgo', (h.write hg).focusOn a ?_⟩
    rwa [Like, hp', hq']
  | pause hp =>
    obtain ⟨p', hp', hgo⟩ := goes_pause hfocus hP
    obtain ⟨q', hq', hgo'⟩ := goes_pause hfocus' hQ
    refine ⟨t, _, _, hgo, hgo', h.idle.queue (.resume a ?_)⟩
    rwa [Like, hp', hq']
  | both hl hr hk =>
    obtain ⟨k, hp', hgo⟩ := goes_both hfocus hP
    obtain ⟨k', hq', hgo'⟩ := goes_both hfocus' hQ
    refine ⟨t, _, _, hgo, hgo', h.split a hl hr fun s s' hs => ?_⟩
    rw [Like, hp', hq']
    exact hk s s' hs
  | call hC hk =>
    cases hC with
    | site hsite => exact hmeets (hsite.meets_call h.agrees h.valid hk)
    | registering s hchain => exact h.register hchain hk hfocus hfocus' hP hQ
  | drop hC hfs hk =>
    cases hC with
    | site hsite => exact hmeets (hsite.meets_drop hfs h.valid hk)
    | registering s hchain =>
      rw [registering_dropping] at hP hQ
      exact h.register hchain hk hfocus hfocus' hP hQ

/-- Related machines come to their ends alike or go on to related machines. -/
theorem matches_related (chain : Nat → Option Link) (x : Nat) :
    Matches fun m m' => ∃ t, Related chain x t m m' := by
  rintro m m' ⟨t, h⟩
  have hfocus := h.focus
  generalize hm : m.focus = F at hfocus
  generalize hm' : m'.focus = F' at hfocus
  cases hfocus with
  | @some e e' he =>
    obtain ⟨a, p⟩ := e
    obtain ⟨a', q⟩ := e'
    obtain ⟨heq, hlike⟩ := he
    obtain rfl : a = a' := heq
    obtain ⟨t', m₁, m₁', hgo, hgo', hrelated⟩ := h.progress_focus hm hm' hlike
    exact .inr ⟨m₁, m₁', hgo, hgo', t', hrelated⟩
  | none =>
    have hready := h.ready
    generalize hr : m.ready = turns at hready
    generalize hr' : m'.ready = turns' at hready
    cases hready with
    | nil =>
      refine .inl ⟨?_, ?_, h.world, h.roots⟩
      · rw [step, hm, hr]
      · rw [step, hm', hr']
    | @cons turn turn' rest rest' hturn hrest =>
      have hrelated : Related chain x t { m with ready := rest } { m' with ready := rest' } :=
        { h with ready := hrest }
      refine .inr ⟨take turn { m with ready := rest }, take turn' { m' with ready := rest' },
        .single ?_, .single ?_, t, ?_⟩
      · rw [Goes, step, hm, hr]
        cases turn <;> rfl
      · rw [Goes, step, hm', hr']
        cases turn' <;> rfl
      · cases hturn with
        | resume a hp => exact hrelated.focusOn a hp
        | settled j left ho => exact hrelated.settle j left ho

/-! ## Chains and sequences -/

theorem reaches_of_moves {guards' : List Bool} {q : Process}
    (h : Moves m.world (m.guards, p.performed) (guards', q)) (hfocus : m.focus = some (a, p)) :
    ∃ p', p'.performed = q ∧ ReflTransGen Goes m (m.moved a guards' p') := by
  rcases reflTransGen_iff_eq_or_transGen.mp h with heq | h
  · cases heq
    refine ⟨p, rfl, ?_⟩
    rw [moved, ← hfocus]
  · obtain ⟨p', hp', hgo⟩ := goes_of_moves h hfocus
    exact ⟨p', hp', hgo.to_reflTransGen⟩

/-- The machine whose only root has its turn. -/
def running (w : World) (p : Process) : Machine :=
  focusOn (.root 0) p { world := w, roots := [none] }

theorem goes_running (w : World) (p : Process) : Goes (ofRoots w [p]) (running w p) := rfl

/-- The runs of a link and of its functions come to related machines. -/
theorem related_running {l : Link} {fs : List Fn} (h : Unrolls chain [l] fs)
    (hw : w.Agrees chain) (hfs : Tidy chain fs) (x : Nat) : ∃ t m m',
      ReflTransGen Goes (running w (l.run x)) m ∧
      ReflTransGen Goes (running w (sequence x fs).ignored) m' ∧ Related chain x t m m' := by
  obtain ⟨guards, P, hmoves, -, harrives⟩ :=
    reaches_first (x := x) h hw (ignoring ended) rfl (fresh_nil [])
  obtain ⟨t, Q, rfl, -, hvalid, hmoves', halike⟩ :=
    harrives.alike (w := w) [] hfs fun _ _ _ => follow_ended.ignoring
  have hrun : (l.run x).performed = (l.call x (pending x [])).andThen (ignoring ended) :=
    ignored_andThen _ ended
  rw [← hrun] at hmoves
  have hignored : (sequence x fs).ignored.performed = (sequence x fs).andThen (ignoring ended) :=
    ignored_andThen _ ended
  rw [← hignored] at hmoves'
  obtain ⟨p, rfl, hreach⟩ := reaches_of_moves (m := running w (l.run x)) hmoves rfl
  obtain ⟨q, rfl, hreach'⟩ :=
    reaches_of_moves (m := running w (sequence x fs).ignored) hmoves' rfl
  exact ⟨t, _, _, hreach, hreach', rfl, rfl, rfl, hw, hvalid, ⟨rfl, rfl⟩, .some ⟨rfl, halike⟩,
    .nil, .nil, .cons .none .nil⟩

/-- A chain comes to the same end as the sequence of its functions. -/
theorem endsWith_sequence {l : Link} {fs : List Fn} (h : Unrolls chain [l] fs)
    (hw : w.Agrees chain) (hfs : Tidy chain fs) (x : Nat) : EndsWith (ofRoots w [l.run x]) w' f ↔
      EndsWith (ofRoots w [(sequence x fs).ignored]) w' f := by
  obtain ⟨t, m, m', hreach, hreach', hrelated⟩ := related_running h hw hfs x
  replace hreach := hreach.head (goes_running w (l.run x))
  replace hreach' := hreach'.head (goes_running w (sequence x fs).ignored)
  constructor
  · intro hend
    refine .of_reaches hreach' ?_
    exact .of_matches (matches_related chain x) ⟨t, hrelated⟩ (hend.later hreach)
  · intro hend
    refine .of_reaches hreach ?_
    exact .of_matches (matches_related chain x).flip ⟨t, hrelated⟩ (hend.later hreach')

end Machine
end UpdateDispatch
