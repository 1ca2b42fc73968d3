import UpdateDispatch.Proofs.Dispatch.Runs

/-!
# Continuations are called once

`Process.concat` gives its first function a continuation with a guard of its own. A call of that
continuation is a state whose running process is the continuation with something around it that
waits for the call or for its end (`IsCall`). The guard is used in the step after it was found
unused, and the running process does not lose its turn in between. So in any run and under any
scheduler every call but the first one finds the guard used, and goes on with a fault instead of
the second function.
-/

namespace UpdateDispatch

open Relation

namespace Process

/-! ## What waits for a process -/

/-- The functions that put a process where its call or its end is waited for. -/
inductive Surrounds : (Process → Process) → Prop
  | hole : Surrounds fun p => p
  | andThen {K : Process → Process} (k : Outcome → Process) (h : Surrounds K) :
      Surrounds fun p => (K p).andThen k
  | onCall {K : Process → Process} (k : Reply → Process) (h : Surrounds K) :
      Surrounds fun p => (K p).onCall k

variable {K : Process → Process}

theorem Surrounds.checkGuard (h : Surrounds K) (guard : Nat) (k : Bool → Process) :
    K (checkGuard guard k) = .checkGuard guard fun used => K (k used) := by
  induction h with
  | hole => rfl
  | andThen next _ ih | onCall next _ ih =>
    dsimp only
    rw [ih]
    rfl

theorem Surrounds.useGuard (h : Surrounds K) (guard : Nat) (p : Process) :
    K (useGuard guard p) = .useGuard guard (K p) := by
  induction h with
  | hole => rfl
  | andThen next _ ih | onCall next _ ih =>
    dsimp only
    rw [ih]
    rfl

theorem Surrounds.once (h : Surrounds K) (guard : Nat) (rest : Process) :
    K (once guard rest) = .checkGuard guard fun used =>
      if used then K (raised .nextCalledTwice) else .useGuard guard (K rest.awaited) := by
  unfold Process.once
  rw [h.checkGuard]
  congr
  funext used
  cases used
  · exact h.useGuard guard rest.awaited
  · rfl

end Process

namespace Machine

open Process

/-! ## Calls -/

/-- The running process calls a guarded continuation. -/
structure IsCall (guard : Nat) (rest : Process) (m : Machine) (owner : Owner)
    (K : Process → Process) : Prop where
  surrounds : Surrounds K
  focus : m.focus = some (owner, K (once guard rest))

/-- A call that goes on with the rest of the chain, once its guard is used. -/
def Admitted (guard : Nat) (rest : Process) (m : Machine) (owner : Owner)
    (K : Process → Process) : Prop :=
  m.used guard = false ∧ ∃ checked, m.step = some checked ∧
    checked.step = some
      { m with guards := m.guards.set guard true, focus := some (owner, K rest.awaited) }

/-- A call that raises at once and changes nothing else. -/
def Refused (guard : Nat) (m : Machine) (owner : Owner) (K : Process → Process) : Prop :=
  m.used guard = true ∧ m.step = some (m.focusOn owner (K (raised .nextCalledTwice)))

variable {guard : Nat} {rest : Process} {m m' : Machine} {owner : Owner} {K : Process → Process}

theorem IsCall.step (h : IsCall guard rest m owner K) :
    m.step = some (m.focusOn owner (if m.used guard then K (raised .nextCalledTwice)
      else .useGuard guard (K rest.awaited))) := by
  rw [step_of_focus h.focus, h.surrounds.once]
  rfl

theorem IsCall.refused (h : IsCall guard rest m owner K) (hused : m.used guard = true) :
    Refused guard m owner K := by
  refine ⟨hused, ?_⟩
  rw [h.step, if_pos hused]

theorem IsCall.admitted (h : IsCall guard rest m owner K) (hused : m.used guard = false) :
    Admitted guard rest m owner K := by
  refine ⟨hused, _, h.step, ?_⟩
  rw [hused, if_neg Bool.false_ne_true]
  rfl

/-- While a guard is about to be used, no continuation is called. -/
theorem IsCall.ne_useGuard (h : IsCall guard rest m owner K) {other : Owner} {p : Process} :
    m.focus ≠ some (other, .useGuard guard p) := by
  intro hfocus
  rw [h.focus, h.surrounds.once] at hfocus
  cases hfocus

/-- A call whose guard exists leaves it used for every later call. -/
theorem IsCall.used_later (h : IsCall guard rest m owner K) (hguard : guard < m.guards.length)
    (hlater : TransGen Next m m') {owner' : Owner} {K' : Process → Process}
    (h' : IsCall guard rest m' owner' K') : m'.used guard = true := by
  by_cases hused : m.used guard = true
  · exact used_of_reaches hlater.to_reflTransGen hused
  obtain ⟨checked, hnext, hrun⟩ := TransGen.head'_iff.mp hlater
  have hchecked : checked = m.focusOn owner (.useGuard guard (K rest.awaited)) := by
    rw [hnext.eq_of_step h.focus h.step, if_neg hused]
  -- the process that found the guard unused still runs, and uses it
  rcases ReflTransGen.cases_head hrun with rfl | ⟨marked, hmark, hrun⟩
  · exact absurd (by rw [hchecked]; rfl) h'.ne_useGuard
  · refine used_of_reaches hrun ?_
    rw [hchecked] at hmark
    rw [hmark.eq_advance rfl, used_eq_true_iff]
    exact List.getElem?_set_self hguard

/-! ## Joined functions -/

/-- The continuation of a pair is not called before its guard exists. -/
theorem guard_lt_of_call {first second : Nat → Process → Process} {x : Nat} {next : Process}
    (hrun : ReflTransGen Next (m.focusOn owner (Process.concat first second x next)) m')
    {owner' : Owner} (h : IsCall m.guards.length (second x next) m' owner' K) :
    m.guards.length < m'.guards.length := by
  have hfocus := h.focus
  rw [h.surrounds.once] at hfocus
  rcases ReflTransGen.cases_head hrun with rfl | ⟨called, hcall, hrun⟩
  · cases hfocus
  rcases ReflTransGen.cases_head hrun with rfl | ⟨started, hstart, hrun⟩
  · rw [hcall.eq_advance rfl] at hfocus
    cases hfocus
  · rw [hcall.eq_advance rfl] at hstart
    rw [hstart.eq_advance rfl] at hrun
    have hlen : (m.guards ++ [false]).length ≤ m'.guards.length := (Kept.of_reaches hrun).length_le
    rw [List.length_append, List.length_singleton] at hlen
    omega

/-- Whatever two functions are joined and however they are scheduled among other processes, the
first one gets a continuation with a guard that is not used yet. A call of it goes on with the
second function or raises at once, and a call that comes after another one raises. -/
theorem concat_admits_one_call (first second : Nat → Process → Process) (x : Nat) (next : Process)
    (owner : Owner) (m : Machine) :
    run 2 (m.focusOn owner (Process.concat first second x next)) =
      { m with
        guards := m.guards ++ [false]
        focus := some (owner, (first x (once m.guards.length (second x next))).ignored) } ∧
    ∀ m₁ o₁ K₁, ReflTransGen Next (m.focusOn owner (Process.concat first second x next)) m₁ →
      IsCall m.guards.length (second x next) m₁ o₁ K₁ →
      (Admitted m.guards.length (second x next) m₁ o₁ K₁ ∨ Refused m.guards.length m₁ o₁ K₁) ∧
      ∀ m₂ o₂ K₂, TransGen Next m₁ m₂ → IsCall m.guards.length (second x next) m₂ o₂ K₂ →
        Refused m.guards.length m₂ o₂ K₂ := by
  refine ⟨rfl, fun m₁ o₁ K₁ hrun hcall => ⟨?_, fun m₂ o₂ K₂ hlater hcall' => ?_⟩⟩
  · rcases hused : m₁.used m.guards.length with _ | _
    · exact .inl (hcall.admitted hused)
    · exact .inr (hcall.refused hused)
  · exact hcall'.refused (hcall.used_later (guard_lt_of_call hrun hcall) hlater hcall')

/-- A script that calls its continuation and then once more, before a link that passes. -/
def retrying : Link := .concat (.script { actions := [.nextCaught, .next], plain := false }) .pass

/-- A machine that runs nothing but this pair of links. -/
def retryingStart : Machine :=
  { world := { client := none, me := default }
    focus := some (.root 0, retrying.call 0 leaf) }

theorem concat_admits_one_call_retrying :
    ∃ K₁ K₂, Admitted 0 (Link.pass.call 0 leaf) (run 2 retryingStart) (.root 0) K₁ ∧
      IsCall 0 (Link.pass.call 0 leaf) (run 4 retryingStart) (.root 0) K₂ ∧
      Refused 0 (run 4 retryingStart) (.root 0) K₂ := by
  obtain ⟨K₁, h₁⟩ : ∃ K₁, IsCall 0 (Link.pass.call 0 leaf) (run 2 retryingStart) (.root 0) K₁ :=
    ⟨_, .andThen _ (.andThen _ (.andThen _ .hole)), rfl⟩
  obtain ⟨K₂, h₂⟩ : ∃ K₂, IsCall 0 (Link.pass.call 0 leaf) (run 4 retryingStart) (.root 0) K₂ :=
    ⟨_, .andThen _ (.andThen _ .hole), rfl⟩
  have hlater : TransGen Next (run 2 retryingStart) (run 4 retryingStart) :=
    .tail (.single (next_of_step rfl)) (next_of_step rfl)
  obtain ⟨-, hcalls⟩ := concat_admits_one_call
    (Link.call (.script { actions := [.nextCaught, .next], plain := false }))
    Link.pass.call 0 leaf (.root 0) { world := { client := none, me := default } }
  obtain ⟨hfirst, hsecond⟩ := hcalls _ _ _ (reaches_run 2 retryingStart) h₁
  exact ⟨K₁, K₂, hfirst.resolve_right fun h => Bool.false_ne_true h.1, h₂, hsecond _ _ _ hlater h₂⟩

end Machine
end UpdateDispatch
