import UpdateDispatch.Proofs.Dispatch.Lockstep
import UpdateDispatch.Proofs.Dispatch.Mirrors

/-!
# Runs from two variants

Two machines in variants of a state are in accord (`Variants.Accord`) when their processes, turns
and joins do the same, one by one. Where only one of them enters a composer that the other one does
not have, it takes more steps than the other one does, and both come to machines in accord again
(`Variants.Accord.progress`). So one comes to its end if the other one does, with the same outcome
and in a state that corresponds (`Variants.Accord.exists_endsWith`).
-/

namespace UpdateDispatch.Variants

open Relation Process Machine

section Accord

variable (V : Variants) (R : Numbers → World → World → Prop) (N : Numbers)

/-- Turns of the same owner for processes that do the same, or for the same outcome. -/
inductive TurnsAccord : Turn → Turn → Prop
  | resume (a : Owner) {p p' : Process} (h : V.Later R N p p') :
      TurnsAccord (.resume a p) (.resume a p')
  | settled (j : Nat) (left : Bool) (o : Outcome) :
      TurnsAccord (.settled j left o) (.settled j left o)

/-- Joins of the same owner that go on to do the same. -/
structure JoinsAccord (J J' : Join) : Prop where
  owner : J'.owner = J.owner
  next : ∀ s, V.Later R N (J.next s) (J'.next s)
  first : J'.first = J.first

/-- Two machines whose processes do the same, one by one. -/
structure Accord (m m' : Machine) : Prop where
  world : R N m.world m'.world
  guards : Flags N.guards m.guards m'.guards
  focus : Option.Rel
    (fun e e' => e'.1 = e.1 ∧ (V.kept m.world → V.Now R N m.world m'.world e.2 e'.2))
    m.focus m'.focus
  ready : List.Forall₂ (V.TurnsAccord R N) m.ready m'.ready
  joins : List.Forall₂ (V.JoinsAccord R N) m.joins m'.joins
  tasks : m.tasks = [] ∧ m'.tasks = []
  roots : m'.roots = m.roots

end Accord

variable {V : Variants} {R : Numbers → World → World → Prop} {N N₁ : Numbers} {m m' : Machine}
  {p p' l l' r r' : Process} {k k' : Settled → Process} {a : Owner}

theorem TurnsAccord.mono {t t' : Turn} (h : V.TurnsAccord R N t t') (hN : N.Within N₁) :
    V.TurnsAccord R N₁ t t' := by
  cases h with
  | resume a h => exact .resume a (h.mono hN)
  | settled j left o => exact .settled j left o

theorem JoinsAccord.mono {J J' : Join} (h : V.JoinsAccord R N J J') (hN : N.Within N₁) :
    V.JoinsAccord R N₁ J J' := ⟨h.owner, fun s => (h.next s).mono hN, h.first⟩

namespace Accord

/-- Machines stay in accord with more numbers, whatever they run. -/
theorem mono (h : V.Accord R N m m') (hN : N.Within N₁) {w w' : World} {guards guards' : List Bool}
    (hw : R N₁ w w') (hguards : Flags N₁.guards guards guards')
    (hfocus : V.kept w → V.Now R N₁ w w' p p') (a : Owner) :
    V.Accord R N₁ { m with world := w, guards := guards, focus := some (a, p) }
      { m' with world := w', guards := guards', focus := some (a, p') } where
  world := hw
  guards := hguards
  focus := .some ⟨rfl, hfocus⟩
  ready := h.ready.imp fun _ _ ht => ht.mono hN
  joins := h.joins.imp fun _ _ hJ => hJ.mono hN
  tasks := h.tasks
  roots := h.roots

theorem focusOn (h : V.Accord R N m m') (a : Owner)
    (hp : V.kept m.world → V.Now R N m.world m'.world p p') :
    V.Accord R N (m.focusOn a p) (m'.focusOn a p') := { h with focus := .some ⟨rfl, hp⟩ }

theorem idle (h : V.Accord R N m m') : V.Accord R N m.idle m'.idle := { h with focus := .none }

theorem queue (h : V.Accord R N m m') {t t' : Turn} (ht : V.TurnsAccord R N t t') :
    V.Accord R N (m.queue t) (m'.queue t') :=
  { h with ready := List.rel_append h.ready (.cons ht .nil) }

theorem finish (h : V.Accord R N m m') (a : Owner) (o : Outcome) :
    V.Accord R N (m.finish a o) (m'.finish a o) := by
  cases a with
  | root i => exact { h.idle with roots := congrArg (·.set i (some o)) h.roots }
  | side j left => exact h.idle.queue (.settled j left o)
  | shared task =>
    obtain ⟨htasks, htasks'⟩ := h.tasks
    simpa only [Machine.finish, htasks, htasks', List.getElem?_nil, List.map_nil, List.append_nil,
      List.set_nil] using { h.idle with tasks := ⟨rfl, rfl⟩ }

theorem settle (h : V.Accord R N m m') (j : Nat) (left : Bool) (o : Outcome) :
    V.Accord R N (m.settle j left o) (m'.settle j left o) := by
  have hjoin := forall₂_getElem? h.joins j
  unfold Machine.settle
  generalize m.joins[j]? = J? at hjoin
  generalize m'.joins[j]? = J'? at hjoin
  cases hjoin with
  | none => exact h
  | @some J J' hJ =>
    dsimp only
    rw [hJ.owner, hJ.first]
    rcases J.first with _ | ⟨firstLeft, first⟩
    · have htold : V.JoinsAccord R N { J with first := some (left, o) }
          { owner := J.owner, next := J'.next, first := some (left, o) } := ⟨rfl, hJ.next, rfl⟩
      exact { h with joins := forall₂_set h.joins htold j }
    · exact h.queue (.resume J.owner (hJ.next _))

/-- Two processes that start two sides each. -/
theorem split (h : V.Accord R N m m') (a : Owner) (hl : V.Later R N l l') (hr : V.Later R N r r')
    (hk : ∀ s, V.Later R N (k s) (k' s)) :
    V.Accord R N (m.advance a (.both l r k)) (m'.advance a (.both l' r' k')) := by
  have hlength : m'.joins.length = m.joins.length := h.joins.length_eq.symm
  simp only [Machine.advance, hlength]
  exact { h.idle with
    joins := List.rel_append h.joins (.cons ⟨rfl, hk, rfl⟩ .nil)
    ready := List.rel_append h.ready (.cons (.resume _ hl) (.cons (.resume _ hr) .nil)) }

/-! ## Steps -/

/-- A process that enters a composer goes on to its chain. -/
theorem goes_composer {id x : Nat} {next : Process} {k : Outcome → Process}
    (hfocus : m.focus = some (a, .enter (.composer id) x next k)) :
    TransGen Goes m (m.focusOn a (((m.world.chain id).call x next).andThen (ignoring k))) := by
  have hk : (fun o => (ended o).ignored.andThen k) = ignoring k :=
    funext fun o => ended_ignored_andThen o k
  have hread : Goes m (m.focusOn a (.read fun w => .enter (w.chain id) x next fun o =>
      (ended o).ignored.andThen k)) := step_of_focus hfocus
  have henter : Goes (m.focusOn a (.read fun w => .enter (w.chain id) x next fun o =>
      (ended o).ignored.andThen k)) (m.focusOn a (.enter (m.world.chain id) x next fun o =>
        (ended o).ignored.andThen k)) := rfl
  rw [hk] at hread henter
  exact .head hread (.head henter (.single rfl))

theorem follows_ignoring_left {k k' : Outcome → Process} (h : V.Follows R N k k') :
    V.Follows R N (ignoring k) k' := by
  intro o o' ho
  cases o with
  | ok v => exact h _ _ ho
  | error f => exact h _ _ ho

theorem follows_ignoring_right {k k' : Outcome → Process} (h : V.Follows R N k k') :
    V.Follows R N k (ignoring k') := by
  intro o o' ho
  cases o' with
  | ok v => exact h _ _ ho
  | error f => exact h _ _ ho

/-- Machines in accord go on to machines in accord, while the first one runs a process. -/
theorem progress_focus (hR : V.Views R) (hV : V.Faithful R) (halone : ∀ b, ¬ V.beside b)
    (h : V.Accord R N m m') (hp : V.Now R N m.world m'.world p p')
    (hfocus : m.focus = some (a, p)) (hfocus' : m'.focus = some (a, p')) :
    ∃ N₁ m₁ m₁', TransGen Goes m m₁ ∧ TransGen Goes m' m₁' ∧ N.Within N₁ ∧
      V.Accord R N₁ m₁ m₁' := by
  have hgo : Goes m (m.advance a p) := step_of_focus hfocus
  have hgo' : Goes m' (m'.advance a p') := step_of_focus hfocus'
  have hnow : ∀ {q q' : Process}, V.Later R N q q' → V.kept m.world →
      V.Now R N m.world m'.world q q' := fun hq hkept => hq _ _ _ (.refl N) h.world hkept
  cases hp with
  | value v => exact ⟨N, _, _, .single hgo, .single hgo', .refl N, h.finish a (.ok v)⟩
  | raised f => exact ⟨N, _, _, .single hgo, .single hgo', .refl N, h.finish a (.error f)⟩
  | deferred hq => exact ⟨N, _, _, .single hgo, .single hgo', .refl N, h.focusOn a (hnow hq)⟩
  | read hq => exact ⟨N, _, _, .single hgo, .single hgo', .refl N, h.focusOn a fun _ => hq⟩
  | @write _ N₁ _ _ _ _ _ _ hN heq hw _ hq =>
    have hguards : Flags N₁.guards m.guards m'.guards := heq ▸ h.guards
    exact ⟨N₁, _, _, .single hgo, .single hgo', hN, h.mono hN hw hguards hq a⟩
  | newGuard hq =>
    have hguards : Flags (N.guard m.guards.length m'.guards.length).guards (m.guards ++ [false])
      (m'.guards ++ [false]) := h.guards.add rfl
    exact ⟨_, _, _, .single hgo, .single hgo', Numbers.within_guard,
      h.mono Numbers.within_guard (hR.guard h.world _ _) hguards (fun _ => hq _ _) a⟩
  | @checkGuard _ _ _ i i' k k' hi hq =>
    have hused : m'.used i' = m.used i := h.guards.getD hi
    have hnext : V.Accord R N (m.focusOn a (k (m.used i))) (m'.focusOn a (k' (m'.used i'))) :=
      h.focusOn a fun _ => hused ▸ hq (m.used i)
    exact ⟨N, _, _, .single hgo, .single hgo', .refl N, hnext⟩
  | useGuard hi hq =>
    exact ⟨N, _, _, .single hgo, .single hgo', .refl N,
      h.mono (.refl N) h.world (h.guards.set hi rfl) (fun _ => hq) a⟩
  | pause hq => exact ⟨N, _, _, .single hgo, .single hgo', .refl N, h.idle.queue (.resume a hq)⟩
  | race _ hq hk =>
    exact ⟨N, _, _, .single hgo, .single hgo', .refl N, h.split a hq hq fun s => hk _ _⟩
  | fork hq hi hk => exact ⟨N, _, _, .single hgo, .single hgo', .refl N, h.split a hq hi hk⟩
  | enter hl hs hnext hk =>
    replace hnext : V.Handed R N _ _ := ⟨hs, hnext⟩
    cases hl with
    | chains hl =>
      exact ⟨N, _, _, .single hgo, .single hgo', .refl N,
        h.focusOn a (hnow (later_entered hR hV hl hnext hk))⟩
    | left hc hl =>
      have hchain := ((hR.basis N).stores h.world).chain_left hc
      have hgo := goes_composer hfocus
      rw [hchain] at hgo
      exact ⟨N, _, _, hgo, .single hgo', .refl N,
        h.focusOn a (hnow (later_entered hR hV hl hnext (follows_ignoring_left hk)))⟩
    | right hc hl =>
      have hchain := ((hR.basis N).stores h.world).chain_right hc
      have hgo' := goes_composer hfocus'
      rw [hchain] at hgo'
      exact ⟨N, _, _, .single hgo, hgo', .refl N,
        h.focusOn a (hnow (later_entered hR hV hl hnext (follows_ignoring_right hk)))⟩
  | aside hb => exact absurd hb (halone _)

/-- Machines in accord stop together or go on to machines in accord. -/
theorem progress (hR : V.Views R) (hV : V.Faithful R) (halone : ∀ b, ¬ V.beside b)
    (h : V.Accord R N m m') (hkept : V.kept m.world) :
    (m.step = none ∧ m'.step = none) ∨ ∃ N₁ m₁ m₁', TransGen Goes m m₁ ∧ TransGen Goes m' m₁' ∧
      N.Within N₁ ∧ V.Accord R N₁ m₁ m₁' := by
  have hfocus := h.focus
  generalize hm : m.focus = F at hfocus
  generalize hm' : m'.focus = F' at hfocus
  cases hfocus with
  | @some e e' he =>
    obtain ⟨a, p⟩ := e
    obtain ⟨_, p'⟩ := e'
    obtain ⟨rfl, hp⟩ := he
    exact .inr (h.progress_focus hR hV halone (hp hkept) hm hm')
  | none =>
    have hready := h.ready
    generalize hr : m.ready = turns at hready
    generalize hr' : m'.ready = turns' at hready
    cases hready with
    | nil => exact .inl ⟨by rw [step, hm, hr], by rw [step, hm', hr']⟩
    | @cons t t' rest rest' ht hrest =>
      have haccord : V.Accord R N { m with ready := rest } { m' with ready := rest' } :=
        { h with ready := hrest }
      refine .inr ⟨N, take t { m with ready := rest }, take t' { m' with ready := rest' },
        .single ?_, .single ?_, .refl N, ?_⟩
      · rw [Goes, step, hm, hr]
        cases t <;> rfl
      · rw [Goes, step, hm', hr']
        cases t' <;> rfl
      · cases ht with
        | resume a hp =>
          exact haccord.focusOn a fun hkept => hp _ _ _ (.refl N) h.world hkept
        | settled j left o => exact haccord.settle j left o

/-! ## Ends -/

/-- A machine in accord with one that comes to its end does so as well, with the same outcome, if
the first one keeps to what is of interest. -/
theorem exists_endsWith (hR : V.Views R) (hV : V.Faithful R) (halone : ∀ b, ¬ V.beside b)
    (h : V.Accord R N m m') (hkept : ∀ s, ReflTransGen Goes m s → V.kept s.world) {w : World}
    {f : Option Fault} (hend : EndsWith m w f) :
    ∃ N₁ w', N.Within N₁ ∧ EndsWith m' w' f ∧ R N₁ w w' := by
  obtain ⟨n, o, hstop, hworld, hroots, hfault⟩ := hend
  induction n using Nat.strong_induction_on generalizing m m' N with
  | _ n ih =>
    rcases h.progress hR hV halone (hkept m .refl) with
      ⟨hnone, hnone'⟩ | ⟨N₁, m₁, m₁', hgo, hgo', hN, haccord⟩
    · rw [run_of_stopped hnone] at hworld hroots
      exact ⟨N, m'.world, .refl N, ⟨0, o, hnone', rfl, h.roots.trans hroots, hfault⟩,
        hworld ▸ h.world⟩
    · obtain ⟨k, hk, heq⟩ := run_of_transGen hgo hstop
      rw [← heq] at hstop hworld hroots
      obtain ⟨N₂, w', hN', hend', hw⟩ := ih k hk haccord
        (fun s hs => hkept s (hgo.to_reflTransGen.trans hs)) hstop hworld hroots
      exact ⟨N₂, w', hN.trans hN', .of_reaches hgo'.to_reflTransGen hend', hw⟩

end Accord

/-- Two runs that start with processes that do the same, before there are any guards. -/
theorem accord_ofRoots {w w' : World} (hw : R N w w') (hN : N.guards = []) (hp : V.Later R N p p') :
    V.Accord R N (ofRoots w [p]) (ofRoots w' [p']) where
  world := hw
  guards := hN ▸ .nil _ _ _
  focus := .none
  ready := .cons (.resume (.root 0) hp) .nil
  joins := .nil
  tasks := ⟨rfl, rfl⟩
  roots := rfl

end UpdateDispatch.Variants
