import UpdateDispatch.Proofs.Dispatch.Likeness
import UpdateDispatch.Proofs.Dispatch.Threads

/-!
# Steps within a turn

A process keeps its turn until it suspends, waits or ends, and nobody comes in between. `InTurn`
relates two states of which one follows from the other by such steps. So whatever a run comes to
later, it has passed the second state or is still on the way to it (`InTurn.passes`).
-/

namespace UpdateDispatch

open Relation

namespace Machine

open Process

variable {m m' s : Machine} {a : Owner} {p q : Process} {K : Process → Process}
  {k : Outcome → Process}

/-- The process of `a` leads from one state to another without losing its turn in between. -/
def InTurn (a : Owner) : Machine → Machine → Prop :=
  ReflTransGen fun m m' => ∃ p, m.focus = some (a, p) ∧ m' = m.advance a p

theorem InTurn.refl (m : Machine) : InTurn a m m := ReflTransGen.refl

theorem InTurn.trans (h : InTurn a m s) (h' : InTurn a s m') : InTurn a m m' :=
  ReflTransGen.trans h h'

theorem InTurn.advance (h : InTurn a m s) (hfocus : s.focus = some (a, p)) :
    InTurn a m (s.advance a p) := ReflTransGen.tail h ⟨p, hfocus, rfl⟩

theorem InTurn.reaches (h : InTurn a m s) : ReflTransGen Next m s := by
  induction h with
  | refl => exact .refl
  | tail _ hstep ih =>
    obtain ⟨p, hfocus, rfl⟩ := hstep
    exact ih.tail (.advance hfocus)

/-- Nobody comes in between. -/
theorem InTurn.passes (h : InTurn a m s) (hrun : ReflTransGen Next m m') :
    InTurn a m' s ∨ ReflTransGen Next s m' := by
  induction h using ReflTransGen.head_induction_on with
  | refl => exact .inr hrun
  | head hstep hrest ih =>
    obtain ⟨p, hfocus, rfl⟩ := hstep
    rcases ReflTransGen.cases_head hrun with rfl | ⟨t, hnext, hrun⟩
    · exact .inl (.head ⟨p, hfocus, rfl⟩ hrest)
    · rw [hnext.eq_advance hfocus] at hrun
      exact ih hrun

/-! ## Steps in a context -/

theorem InTurn.read (h : InTurn a m s) (hK : Surrounds K) {f : World → Process}
    (hfocus : s.focus = some (a, K (.read f))) : InTurn a m (s.focusOn a (K (f s.world))) := by
  rw [hK.read] at hfocus
  exact h.advance hfocus

theorem InTurn.write (h : InTurn a m s) (hK : Surrounds K) {f : World → World}
    (hfocus : s.focus = some (a, K (.write f p))) :
    InTurn a m { s with world := f s.world, focus := some (a, K p) } := by
  rw [hK.write] at hfocus
  exact h.advance hfocus

theorem InTurn.enter (h : InTurn a m s) {l : Link} {x : Nat} {next : Process}
    (hfocus : s.focus = some (a, .enter l x next k)) :
    InTurn a m (s.focusOn a ((l.call x next).andThen k)) := h.advance hfocus

/-- A process that waits for a shared task that has ended goes on. -/
theorem InTurn.await_finished (h : InTurn a m s) {t : Nat} {o : Outcome}
    (hfocus : s.focus = some (a, .await t k)) (ht : s.tasks[t]? = some (.finished o)) :
    InTurn a m (s.focusOn a (k o)) := by
  have hgoes := h.advance hfocus
  rwa [Machine.advance, ht] at hgoes

/-- A process that waits for a shared task gives up its turn. -/
theorem InTurn.await (h : InTurn a m s) {t : Nat} {ws : List (Owner × (Outcome → Process))}
    (hfocus : s.focus = some (a, .await t k)) (ht : s.tasks[t]? = some (.running ws)) :
    InTurn a m { s.idle with tasks := s.tasks.set t (.running (ws ++ [(a, k)])) } := by
  have hwaits := h.advance hfocus
  rwa [Machine.advance, ht] at hwaits

/-! ## Awaited links -/

variable {id x : Nat} {l : Link} {next : Process}

/-- The call of a composer enters its chain. -/
theorem InTurn.dispatch (h : InTurn a m s)
    (hfocus : s.focus = some (a, (dispatch id x next).andThen k)) :
    InTurn a m (s.focusOn a (((s.world.chain id).call x next).andThen (ignoring k))) := by
  have hread := h.read .hole hfocus
  have henter := hread.enter rfl
  have hk : (fun o => (ended o).ignored.andThen k) = ignoring k := by
    funext o
    cases o <;> rfl
  rwa [← hk]

/-- A continuation that has not been called yet uses its guard and goes on. -/
theorem InTurn.once (h : InTurn a m s) {guard : Nat}
    (hfocus : s.focus = some (a, (once guard p).andThen k)) (hunused : s.used guard = false) :
    InTurn a m { s with
      guards := s.guards.set guard true
      focus := some (a, p.andThen k) } := by
  have hcheck : InTurn a m (s.focusOn a ((if s.used guard then raised .nextCalledTwice
      else useGuard guard p.awaited).andThen k)) := h.advance hfocus
  rw [hunused] at hcheck
  rw [← awaited_andThen p k]
  exact hcheck.advance rfl

/-- A link that passes calls the one after it. -/
theorem InTurn.concat_pass (h : InTurn a m s)
    (hfocus : s.focus = some (a, ((Link.concat .pass l).call x next).andThen k)) :
    ∃ s', InTurn a m s' ∧ s'.world = s.world ∧
      s'.focus = some (a, (l.call x next).andThen (ignoring k)) := by
  have hguard : InTurn a m { s with
      guards := s.guards ++ [false]
      focus := some (a, (Process.once s.guards.length (l.call x next)).ignored.andThen k) } :=
    h.advance hfocus
  refine ⟨_, hguard.once (by rw [ignored_andThen]) ?_, rfl, rfl⟩
  simp [used]

end Machine
end UpdateDispatch
