import UpdateDispatch.Proofs.Dispatch.Asides

/-!
# The rest goes on

A turn that carries the rest on gives it the turn to run (`Resting.take_turn`), tells the join for
which it runs (`Resting.tell`), or calls a continuation for the first of two times (`Resting.race`).
So a machine that is where a lone process is goes on until both are over or come to a branch
(`Abreast.continues`), and if it comes to its end, it has come to the one of the lone process
(`Abreast.arrives`).
-/

namespace UpdateDispatch

open Relation

namespace Machine

open Process

variable {side : Nat} {m₀ m m' : Machine} {N : Numbers} {j : Nat} {a b : Owner}
  {p q : Process} {ws extra : List Wait} {ts rest : List Turn} {t : Turn} {V : Variants} {v : World}
  {K L : Outcome → Process} {s : Lone} {o : Outcome}

/-! ## Turns of the rest -/

/-- The first turn of a queue is a loose one, or it is the first one that carries the rest on. -/
theorem Among.cons (h : Among side m₀ N m ws ts (t :: rest)) :
    (Loose side m₀ N m ws t ∧ Among side m₀ N m ws ts rest) ∨
      ∃ ts' after, ts = t :: ts' ∧ rest = ts' ++ after ∧ ∀ u ∈ after, Loose side m₀ N m ws u := by
  obtain ⟨before, after, heq, hloose⟩ := h
  rcases before with _ | ⟨u, before⟩
  · rcases ts with _ | ⟨u, ts⟩
    · rw [List.nil_append, List.nil_append] at heq
      subst heq
      exact .inl ⟨hloose t List.mem_cons_self, [], rest, rfl,
        fun u hu => hloose u (List.mem_cons_of_mem _ hu)⟩
    · cases heq
      exact .inr ⟨ts, after, rfl, rfl, hloose⟩
  · cases heq
    exact .inl ⟨hloose t List.mem_cons_self, before, after, rfl,
      fun u hu => hloose u (List.mem_cons_of_mem _ hu)⟩

/-- The rest has a turn to go on. -/
theorem Resting.take_turn (hV : V.Forks side)
    (h : Resting V side m₀ v N ws a K [] [.resume b p] m s)
    (hfocus : m.focus = none) (hready : m.ready = .resume b p :: rest)
    (hrest : ∀ t ∈ rest, Loose side m₀ N m ws t) :
    ∃ m₁, Goes m m₁ ∧ Underway V side m₀ v N ws a K p m₁ s := by
  have hturns := h.turns
  cases hturns with
  | @queued _ p' hp hs =>
    have hgo : Goes m { m with ready := rest, focus := some (a, p) } :=
      step_of_ready hfocus hready
    refine ⟨_, hgo, ?_⟩
    exact
      { toRest := h.toRest.quiet hgo rfl rfl rfl h.waits
        focus := rfl
        ready := fun t ht => (hrest t ht).onward (.of_marks (.single hgo) rfl)
        now := ⟨p', hp _ _ _ (.refl N) h.world (hV.kept _), hs⟩ }

/-- What comes of a turn that tells the join `j` that its first side has ended: the rest waits for
the second side, or it has a turn to go on with what follows the join. -/
inductive Rejoins (V : Variants) (side : Nat) (m₀ : Machine) (v : World) (N : Numbers)
    (ws : List Wait) (j : Nat) (m : Machine) (s : Lone) : Prop
  | waits {ws' : List Wait} {a : Owner} {K : Outcome → Process} {other : Option Fault}
      {m₁ : Machine} (hws : ws = (j, other) :: ws') (hgo : Goes m m₁)
      (h : Resting V side m₀ v N ws' a K [(j, other)] [] m₁ s)
  | returns {ws' : List Wait} {a : Owner} {K : Outcome → Process} {other : Option Fault} {J : Join}
      {e : Settled} {m₁ : Machine} {s₁ : Lone} (hws : ws = (j, other) :: ws')
      (hJ : m.joins[j]? = some J) (hgo : Goes m m₁) (hs : ReflTransGen Lone.Goes s s₁)
      (h : Resting V side m₀ v N ws' a K [] [.resume a (J.next e)] m₁ s₁)

/-- The rest tells the join for which it has run. -/
theorem Resting.tell (hm₀ : Reachable m₀)
    (h : Resting V side m₀ v N ws a K [] [.settled j true o] m s) (hfocus : m.focus = none)
    (hready : m.ready = .settled j true o :: rest) (hrest : ∀ t ∈ rest, Loose side m₀ N m ws t) :
    Rejoins V side m₀ v N ws j m s := by
  have hturns := h.turns
  cases hturns with
  | telling ha hs =>
    subst ha
    have hwaits := h.waits
    cases hwaits with
    | @side ws a K _ _ J other htail hJ howner hold hnew hnext =>
      have htoRest : Rest V side m₀ v N ws a K m s := { h.toRest with waits := htail }
      rcases hfirst : J.first with _ | ⟨left, o'⟩
      · have hgo := goes_hearing hfocus hready hJ hfirst
        have hlt : j < m.joins.length := (List.getElem?_eq_some_iff.mp hJ).1
        have hwaits : V.Waits N (m.hearing rest j J true o).joins s.guards ws a K :=
          waits_joins htail fun w hw I hI =>
            ⟨I, (List.getElem?_set_ne (hnew w hw).symm).trans hI, rfl, rfl, fun _ _ => .inl⟩
        have hwaiting :
            Resting V side m₀ v N ws a K [(j, other)] [] (m.hearing rest j J true o) s :=
          { toRest := htoRest.quiet hgo rfl rfl rfl hwaits
            focus := elim_of_idle hfocus
            ready := ⟨[], rest, rfl, fun t ht => (hrest t ht).onward (.of_marks (.single hgo) rfl)⟩
            turns := .told (List.getElem?_set_self hlt) howner rfl hnew fun e he hother => by
              rw [hs, ← he]
              exact hnext e hother }
        exact .waits rfl hgo hwaiting
      · obtain ⟨rfl, hother⟩ := hold _ _ hfirst
        obtain ⟨m₁, s₁, hgo, hs₁, h₁⟩ := htoRest.pop hm₀ hfocus hready hJ howner hfirst
          (hs ▸ hnext (pair false o' o) hother) hrest
        exact .returns rfl hJ hgo hs₁ h₁

/-! ## A continuation is called twice at once -/

section Race

variable {J : Join} {q' : Process} {k k' : Option Fault → Option Fault → Process}
  {after : List Turn}

/-- The two calls end at once. -/
theorem Rest.race_prompt (h : Rest V side m₀ v N ws a K m s) (hfocus : m.focus = none)
    (hready : m.ready = .resume (.side j true) q :: .resume (.side j false) q :: after)
    (hafter : ∀ t ∈ after, Loose side m₀ N m ws t) (hq : Variants.Proceeds N q q')
    (hused : ∀ i r, q = once i r → m.used i = true)
    (hwaits : ∀ other, V.Waits N m.joins s.guards ((j, other) :: ws) (.side j true) fun o =>
      (k' (Outcome.fault? o) other).andThen K)
    (hs : s.process = q'.andThen fun o => q'.andThen fun o' =>
      (k' (Outcome.fault? o) (Outcome.fault? o')).andThen K) :
    ∃ m₁ s₁ ws' L o, TransGen Goes m m₁ ∧ ReflTransGen Lone.Goes s s₁ ∧
      Resting V side m₀ v N ws' (.side j true) L [] [.settled j true o] m₁ s₁ := by
  obtain ⟨u₁, u₁', o₁, hprompt₁, hlone₁, hshows₁⟩ := exists_prompt hq h.world h.guards hused
  obtain ⟨u₂, u₂', o₂, hprompt₂, hlone₂, hshows₂⟩ := exists_prompt hq hshows₁ h.guards hused
  have hgo₁ := hprompt₁.goes hfocus hready
  have hgo₂ : TransGen Silent (m.reporting (.resume (.side j false) q :: after) u₁
      (.settled j true o₁)) (m.reporting (after ++ [.settled j true o₁]) u₂
      (.settled j false o₂)) := by
    refine Prompt.goes (m := m.reporting _ u₁ _) hprompt₂ rfl ?_
    rfl
  have hgo := hgo₁.trans hgo₂
  have hlone := (hlone₁.lone fun o => q'.andThen fun o' =>
    (k' (Outcome.fault? o) (Outcome.fault? o')).andThen K).trans (hlone₂.lone _)
  obtain ⟨hevents₁, hnotices₁, -⟩ := hlone₁.noted
  obtain ⟨hevents₂, hnotices₂, -⟩ := hlone₂.noted
  have hmarks : u₂.marks.length = m.world.marks.length :=
    hprompt₂.noted.2.2.trans hprompt₁.noted.2.2
  have hon : Onward m N (m.reporting (after ++ [.settled j true o₁]) u₂ (.settled j false o₂)) N :=
    .of_marks (goes_of_silent hgo.to_reflTransGen) hmarks
  have hrests : Resting V side m₀ v N ((j, Outcome.fault? o₂) :: ws) (.side j true)
      (fun o => (k' (Outcome.fault? o) (Outcome.fault? o₂)).andThen K) [] [.settled j true o₁]
      (m.reporting (after ++ [.settled j true o₁]) u₂ (.settled j false o₂))
      ⟨s.guards, u₂', (k' (Outcome.fault? o₁) (Outcome.fault? o₂)).andThen K⟩ :=
    { toRest := h.reports hgo hshows₂ (hevents₂.trans hevents₁) (hnotices₂.trans hnotices₁)
        (hwaits _)
      focus := nofun
      ready := by
        refine ⟨after, [.settled j false o₂], List.append_assoc _ _ _, fun t ht => ?_⟩
        rcases List.mem_append.mp ht with ht | ht
        · exact ((hafter t ht).onward hon).mono (List.subset_cons_self _ _)
        · rw [List.mem_singleton.mp ht]
          exact ⟨_, List.mem_cons_self, .told⟩
      turns := .telling rfl rfl }
  refine ⟨_, _, _, _, o₁, transGen_of_silent hgo, ?_, hrests⟩
  rwa [← hs] at hlone

/-- What a continuation runs that has not been called before. -/
theorem now_awaited {w w' : World} {i i' : Nat} {p p' : Process}
    (h : V.Now V.Shows N w w' (once i p) (once i' p')) :
    V.Now V.Shows N w w' p.awaited p'.awaited := by
  cases h with
  | checkGuard _ h =>
    have hfresh : V.Now V.Shows N w w' (useGuard i p.awaited) (useGuard i' p'.awaited) := h false
    cases hfresh with
    | useGuard _ h => exact h

/-- The machine in which the first of two calls runs what has not run before. -/
def beginning (after : List Turn) (j i : Nat) (p : Process) (m : Machine) : Machine :=
  { m with
    guards := m.guards.set i true
    focus := some (.side j true, p.awaited)
    ready := .resume (.side j false) (once i p) :: after }

theorem silent_beginning {i : Nat} {p : Process} (hfocus : m.focus = none)
    (hready : m.ready = .resume (.side j true) (once i p) :: .resume (.side j false) (once i p) ::
      after) (hfresh : m.used i = false) : TransGen Silent m (m.beginning after j i p) := by
  obtain ⟨m₁, hm₁⟩ : ∃ m₁, m₁ = { m with
      focus := some (.side j true, once i p)
      ready := .resume (.side j false) (once i p) :: after } := ⟨_, rfl⟩
  have hgo₁ : Goes m m₁ := by
    rw [Goes, step_of_ready hfocus hready, hm₁]
    rfl
  have hgo₂ : Goes m₁ (m₁.focusOn (.side j true) (useGuard i p.awaited)) := by
    have hused : m₁.used i = false := by rwa [hm₁]
    rw [Goes, step_of_focus (congrArg Machine.focus hm₁)]
    show some (m₁.focusOn (.side j true) (if m₁.used i = true then raised .nextCalledTwice
      else useGuard i p.awaited)) = _
    rw [hused, if_neg Bool.false_ne_true]
  have hgo₃ : Goes (m₁.focusOn (.side j true) (useGuard i p.awaited))
      (m.beginning after j i p) := by
    rw [Goes, step_of_focus rfl, hm₁]
    rfl
  have hworld : m₁.world = m.world := by rw [hm₁]
  refine .head ⟨hgo₁, by rw [hworld], by rw [hworld]⟩
    (.head ⟨hgo₂, rfl, rfl⟩ (.single ⟨hgo₃, ?_, ?_⟩))
  · show m.world.events = m₁.world.events
    rw [hworld]
  · show m.world.notices = m₁.world.notices
    rw [hworld]

theorem lone_beginning {g : List Bool} {w : World} {i : Nat} {p : Process}
    (hfresh : g[i]?.getD false = false) :
    ReflTransGen Lone.Goes ⟨g, w, (once i p).andThen L⟩ ⟨g.set i true, w, p.awaited.andThen L⟩ := by
  have hcheck : Lone.Goes ⟨g, w, (once i p).andThen L⟩ ⟨g, w,
      (if g[i]?.getD false = true then raised .nextCalledTwice
        else useGuard i p.awaited).andThen L⟩ := .checkGuard
  rw [hfresh, if_neg Bool.false_ne_true] at hcheck
  exact .head hcheck (.single .useGuard)

/-- The first call runs what has not run before, and the second one is one too many. -/
theorem Rest.race_fresh (hV : V.Forks side) {i i' : Nat} {p p' : Process}
    (h : Rest V side m₀ v N ws a K m s) (hfocus : m.focus = none)
    (hready : m.ready = .resume (.side j true) (once i p) :: .resume (.side j false) (once i p) ::
      after)
    (hafter : ∀ t ∈ after, Loose side m₀ N m ws t) (hi : (i, i') ∈ N.guards)
    (hlater : V.Later V.Shows N (once i p) (once i' p')) (hfresh : m.used i = false)
    (hj : ¬ BranchAt side m₀ j)
    (hwaits : V.Waits N m.joins (s.guards.set i' true) ((j, some .nextCalledTwice) :: ws)
      (.side j true) L) (hs : s.process = (once i' p').andThen L) :
    ∃ m₁ s₁, TransGen Goes m m₁ ∧ ReflTransGen Lone.Goes s s₁ ∧
      Underway V side m₀ v N ((j, some .nextCalledTwice) :: ws) (.side j true) L p.awaited m₁
        s₁ := by
  have hgo := silent_beginning hfocus hready hfresh
  have hgoes := goes_of_silent hgo.to_reflTransGen
  have hon : Onward m N (m.beginning after j i p) N := .of_marks hgoes rfl
  have hlone := lone_beginning (L := L) (w := s.world) (p := p') ((h.guards.getD hi).trans hfresh)
  rw [← hs] at hlone
  refine ⟨_, _, transGen_of_silent hgo, hlone, ?_⟩
  exact
    { noted := h.noted.silent hgo.to_reflTransGen rfl rfl
      reaches := h.reaches.trans hgoes
      roots := h.roots
      world := h.world
      guards := h.guards.set hi rfl
      waits := hwaits
      focus := rfl
      ready := fun t ht => by
        rcases List.mem_cons.mp ht with rfl | ht
        · refine ⟨_, List.mem_cons_self, .spent hj ?_⟩
          show (m.guards.set i true)[i]?.getD false = true
          rw [List.getElem?_set_self (h.guards.lt hi).1]
          rfl
        · exact ((hafter t ht).onward hon).mono (List.subset_cons_self _ _)
      now := ⟨_, now_awaited (hlater _ _ _ (.refl N) h.world (hV.kept _)), rfl⟩ }

theorem exists_once {i : Nat} (h : Variants.Proceeds N q q') (hq : q = once i p) :
    ∃ i' p', q' = once i' p' ∧ (i, i') ∈ N.guards := by
  cases h with
  | leaf | resume | raised => cases hq
  | once hi _ rest' =>
    injection hq with heq
    subst heq
    exact ⟨_, rest', rfl, hi⟩

/-- A continuation is called for the first of two times. -/
theorem Resting.race (hV : V.Forks side) {t₂ : Turn}
    (h : Resting V side m₀ v N ws a K [] [t, t₂] m s) (hfocus : m.focus = none)
    (hready : m.ready = t :: t₂ :: after) (hafter : ∀ t ∈ after, Loose side m₀ N m ws t) :
    ∃ m₁ s₁ ws' b L, TransGen Goes m m₁ ∧ ReflTransGen Lone.Goes s s₁ ∧
      ((∃ p, Underway V side m₀ v N ws' b L p m₁ s₁) ∨
        ∃ j o, Resting V side m₀ v N ws' b L [] [.settled j true o] m₁ s₁) := by
  have hturns := h.turns
  cases hturns with
  | @racing j J q q' k k' hj hJ howner hfirst hnew hnext hq hk hs =>
    have hnone : ∀ {other : Option Fault} left o, J.first = some (left, o) →
        left = false ∧ Outcome.fault? o = other := by
      rw [hfirst]
      exact nofun
    by_cases hused : ∀ i r, q = once i r → m.used i = true
    · have hwaits : ∀ other, V.Waits N m.joins s.guards ((j, other) :: ws) (.side j true) fun o =>
          (k' (Outcome.fault? o) other).andThen K := fun other => by
        refine .side h.waits hJ howner hnone hnew fun e he => ⟨_, ?_, fun _ _ _ => .refl⟩
        rw [hnext, ← he]
        exact hk _ _
      obtain ⟨m₁, s₁, ws', L, o, hgo, hlone, h₁⟩ :=
        h.toRest.race_prompt hfocus hready hafter hq.proceeds hused hwaits hs
      exact ⟨m₁, s₁, ws', _, L, hgo, hlone, .inr ⟨j, o, h₁⟩⟩
    · push Not at hused
      obtain ⟨i, p, rfl, hfresh⟩ := hused
      obtain ⟨i', p', rfl, hi⟩ := exists_once hq.proceeds rfl
      have hkept := kept_set s.guards i'
      have hwaits : V.Waits N m.joins (s.guards.set i' true) ((j, some .nextCalledTwice) :: ws)
          (.side j true) fun o => (once i' p').andThen fun o' =>
            (k' (Outcome.fault? o) (Outcome.fault? o')).andThen K := by
        refine .side (waits_mono h.waits (.refl N) hkept) hJ howner hnone hnew fun e he => ?_
        refine ⟨k' (Outcome.fault? e.left) (some .nextCalledTwice), ?_, fun g w hg => ?_⟩
        · rw [hnext, ← he]
          exact hk _ _
        · have hlt : i' < s.guards.length := (h.guards.lt hi).2
          have hused : g[i']?.getD false = true := by
            rw [hg.used i' (List.getElem?_set_self hlt)]
            rfl
          exact (prompt_once hused p').lone fun o' =>
            (k' (Outcome.fault? e.left) (Outcome.fault? o')).andThen K
      have hfresh : m.used i = false := Bool.eq_false_iff.mpr hfresh
      obtain ⟨m₁, s₁, hgo, hlone, h₁⟩ :=
        h.toRest.race_fresh hV hfocus hready hafter hi hq.later hfresh hj hwaits hs
      exact ⟨m₁, s₁, _, _, _, hgo, hlone, .inl ⟨_, h₁⟩⟩

end Race

/-! ## Runs to the end -/

/-- A run from `m₀` does not stop before the root has ended. -/
def Lively (m₀ : Machine) : Prop :=
  ∀ ⦃m⦄, ReflTransGen Goes m₀ m → m.roots = [none] → m.step ≠ none

theorem lively_ofRoots {u : World} {p₀ : Process} (hp₀ : Dispatches p₀) :
    Lively (ofRoots u [p₀]) := by
  intro m hrun hroots hstep
  obtain ⟨o, ho⟩ := exists_root_of_stopped hp₀ hrun hstep
  rw [hroots] at ho
  cases ho

theorem Resting.exists_ready (hlive : Lively m₀) (h : Resting V side m₀ v N ws a K extra ts m s)
    (hfocus : m.focus = none) : ∃ t rest, m.ready = t :: rest := by
  rcases hready : m.ready with _ | ⟨t, rest⟩
  · have hstep : m.step = none := by rw [step, hfocus, hready]
    exact absurd hstep (hlive h.reaches h.roots)
  · exact ⟨t, rest, rfl⟩

/-- What a machine and the lone process come to next: they are over, or come to a branch, or to
where the one is where the other is again. -/
inductive Continues (V : Variants) (side : Nat) (m₀ : Machine) (v : World) (m : Machine)
    (s : Lone) : Prop
  | closes {o : Outcome} (hfocus : m.focus = some (.root 0, ended o)) (hs : s.Ended o)
  | forks (hm : ReachesFork m) (hs : s.AtFork)
  | moves {m₁ : Machine} {s₁ : Lone} (hgo : TransGen Goes m m₁) (hs : ReflTransGen Lone.Goes s s₁)
      (h : Abreast V side m₀ v m₁ s₁)

theorem Underway.abreast (h : Underway V side m₀ v N ws a K p m s) : Abreast V side m₀ v m s :=
  ⟨N, ws, a, K, .inl ⟨p, h⟩⟩

theorem Resting.abreast (h : Resting V side m₀ v N ws a K extra ts m s) :
    Abreast V side m₀ v m s :=
  ⟨N, ws, a, K, .inr ⟨extra, ts, h⟩⟩

theorem Abreast.exists_rest (h : Abreast V side m₀ v m s) :
    ∃ N ws a K, Rest V side m₀ v N ws a K m s := by
  obtain ⟨N, ws, a, K, ⟨p, h⟩ | ⟨extra, ts, h⟩⟩ := h
  · exact ⟨N, ws, a, K, h.toRest⟩
  · exact ⟨N, ws, a, K, h.toRest⟩

theorem Underway.continues (hV : V.Forks side) (h : Underway V side m₀ v N ws a K p m s) :
    Continues V side m₀ v m s := by
  cases h.step hV with
  | closes hfocus hs => exact .closes hfocus hs
  | forks hm hs => exact .forks hm hs
  | moves hgo hs h => exact .moves (.single hgo) hs.to_reflTransGen h
  | awaited _ hgo h => exact .moves (.single hgo) .refl h.abreast
  | ends _ hgo h => exact .moves (.single hgo) .refl h.abreast
  | splits _ hgo _ _ h => exact .moves (.single hgo) .refl h.abreast

/-- A turn that carries the rest on. -/
theorem Resting.continues_own (hV : V.Forks side) (hm₀ : Reachable m₀) {after : List Turn}
    (h : Resting V side m₀ v N ws a K extra (t :: ts) m s) (hfocus : m.focus = none)
    (hready : m.ready = t :: (ts ++ after))
    (hafter : ∀ t ∈ after, Loose side m₀ N m (extra ++ ws) t) : Continues V side m₀ v m s := by
  have hturns := h.turns
  cases hturns with
  | queued =>
    obtain ⟨m₁, hgo, h₁⟩ := h.take_turn hV hfocus hready hafter
    exact .moves (.single hgo) .refl h₁.abreast
  | telling =>
    cases h.tell hm₀ hfocus hready hafter with
    | waits _ hgo h₁ => exact .moves (.single hgo) .refl h₁.abreast
    | returns _ _ hgo hs h₁ => exact .moves (.single hgo) hs h₁.abreast
  | racing =>
    obtain ⟨m₁, s₁, ws', b, L, hgo, hs, ⟨p, h₁⟩ | ⟨j, o, h₁⟩⟩ := h.race hV hfocus hready hafter
    · exact .moves hgo hs h₁.abreast
    · exact .moves hgo hs h₁.abreast

/-- A machine that is where a lone process is goes on. -/
theorem Abreast.continues (hV : V.Forks side) (hm₀ : Reachable m₀) (hlive : Lively m₀)
    (hside : Unobtrusive side m₀) (h : Abreast V side m₀ v m s) : Continues V side m₀ v m s := by
  obtain ⟨N, ws, a, K, ⟨p, h⟩ | ⟨extra, ts, h⟩⟩ := h
  · exact h.continues hV
  · rcases hfocus : m.focus with _ | ⟨b, p⟩
    · obtain ⟨t, rest, hready⟩ := h.exists_ready hlive hfocus
      have hamong := h.ready
      rw [hready] at hamong
      rcases hamong.cons with ⟨ht, hrest⟩ | ⟨ts', after, rfl, rfl, hafter⟩
      · cases h.loose hm₀ hfocus hready hrest ht with
        | stays hgo _ h₁ => exact .moves hgo .refl h₁.abreast
        | returns _ _ hgo hs h₁ => exact .moves (.single hgo) hs h₁.abreast
      · exact h.continues_own hV hm₀ hfocus hready hafter
    · obtain ⟨m₁, hgo, h₁⟩ := h.step_branch hm₀ hside hfocus
      exact .moves (.single hgo) .refl h₁.abreast

/-- Both have come to the same end, or to a branch. -/
inductive Arrives (V : Variants) (side : Nat) (m₀ : Machine) (v : World) (m : Machine) (s : Lone) :
    Prop
  | closes {m₁ : Machine} {s₁ : Lone} {o : Outcome} (hgo : ReflTransGen Goes m m₁)
      (hs : ReflTransGen Lone.Goes s s₁) (h : Abreast V side m₀ v m₁ s₁)
      (hfocus : m₁.focus = some (.root 0, ended o)) (hended : s₁.Ended o)
  | forks {m₁ : Machine} {s₁ : Lone} (hgo : ReflTransGen Goes m m₁)
      (hs : ReflTransGen Lone.Goes s s₁) (hm : ReachesFork m₁) (hfork : s₁.AtFork)

theorem Arrives.of_reaches {s' : Lone} (h : Arrives V side m₀ v m' s')
    (hgo : ReflTransGen Goes m m') (hs : ReflTransGen Lone.Goes s s') :
    Arrives V side m₀ v m s := by
  cases h with
  | closes hgo' hs' h hfocus hended => exact .closes (hgo.trans hgo') (hs.trans hs') h hfocus hended
  | forks hgo' hs' hm hfork => exact .forks (hgo.trans hgo') (hs.trans hs') hm hfork

/-- If the machine comes to its end, the lone process has come to the same one before. -/
theorem Abreast.arrives (hV : V.Forks side) (hm₀ : Reachable m₀) (hlive : Lively m₀)
    (hside : Unobtrusive side m₀) {n : Nat} (h : Abreast V side m₀ v m s)
    (hend : (run n m).step = none) : Arrives V side m₀ v m s := by
  induction n using Nat.strong_induction_on generalizing m s with
  | _ n ih =>
    cases h.continues hV hm₀ hlive hside with
    | closes hfocus hs => exact .closes .refl .refl h hfocus hs
    | forks hm hs => exact .forks .refl .refl hm hs
    | moves hgo hs h₁ =>
      obtain ⟨k, hk, heq⟩ := run_of_transGen hgo hend
      rw [← heq] at hend
      exact (ih k hk h₁ hend).of_reaches hgo.to_reflTransGen hs

end Machine

end UpdateDispatch
