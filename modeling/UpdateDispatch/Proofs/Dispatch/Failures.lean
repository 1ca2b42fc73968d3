import UpdateDispatch.Proofs.Dispatch.Quiescence
import UpdateDispatch.Proofs.Dispatch.Reports

/-!
# Which failure a fork raises

A fork whose sides have been started goes on when both have ended. If none of them has failed it
returns, and if one has it raises that failure. If both have failed it raises the failure of the
side that ended first and logs the other one (`Machine.fork_raises_first_failure`).

Nothing is asked of the owner of the fork, nor of what waits for its end. It may be a side of
another fork. What counts for the outer fork is then the moment at which that side has ended, after
the inner fork has, and not the one at which something in it has failed.
-/

namespace UpdateDispatch

namespace Machine

open Process

variable {a : Owner} {p : Process} {o o' first second : Outcome} {σ : Nat → Machine}
  {j s t : Nat} {left : Bool} {K : Process → Process}

/-- What a fork logs of its sides, which have ended with `first` and then with `second`. -/
def laterFailure : Outcome → Outcome → List Notice
  | .error _, .error g => [.forkFailed g]
  | _, _ => []

/-- The fork of `a` that has started the sides of the join `j` at the moment `s` goes on at the
moment `t`. Its sides have ended before, the side `left` first. It logs what is to be logged and
ends with the failure that came first, if there is one. -/
structure ForkEnds (σ : Nat → Machine) (s j : Nat) (a : Owner) (K : Process → Process) (left : Bool)
    (first second : Outcome) (t : Nat) : Prop where
  sides : ∃ t₁ t₂, t₁ < t₂ ∧ t₂ < t ∧ Finishes σ t₁ (.side j left) first ∧
    Finishes σ t₂ (.side j !left) second
  waits : ∀ i, s < i → i < t → ∀ p, (σ i).focus ≠ some (a, p)
  runs : ∃ p, (σ t).focus = some (a, p)
  ends : ∃ o, (σ (t + (laterFailure first second).length)).focus = some (a, K (ended o)) ∧
    Outcome.fault? o = (Outcome.fault? first).or (Outcome.fault? second)
  logs : (σ (t + (laterFailure first second).length)).world =
    { (σ t).world with notices := (σ t).world.notices ++ laterFailure first second }
  debug : ∀ notice ∈ laterFailure first second, notice.level = .debug

/-- The later failure is logged, and the fork ends with the failure that came first. -/
theorem joined_pair (left : Bool) (first second : Outcome) :
    ∃ o, joined (pair left first second) = (laterFailure first second).foldr log (ended o) ∧
      Outcome.fault? o = (Outcome.fault? first).or (Outcome.fault? second) := by
  rcases first with f | v <;> rcases second with g | v'
  · exact ⟨.error f, by cases left <;> rfl, rfl⟩
  · exact ⟨.error f, by cases left <;> rfl, rfl⟩
  · exact ⟨.error g, by cases left <;> rfl, rfl⟩
  · exact ⟨.ok .null, by cases left <;> rfl, rfl⟩

theorem debug_of_mem_laterFailure {notice : Notice} (h : notice ∈ laterFailure first second) :
    notice.level = .debug := by
  rcases first with f | v <;> rcases second with g | v'
  · rw [List.mem_singleton.mp h]
    rfl
  all_goals cases h

/-- A process that logs some notices keeps its turn and changes nothing else. -/
theorem Timeline.logs (hσ : Timeline σ) (hK : Surrounds K) (notices : List Notice)
    (hfocus : (σ t).focus = some (a, K (notices.foldr log p))) :
    (σ (t + notices.length)).focus = some (a, K p) ∧ (σ (t + notices.length)).world =
      { (σ t).world with notices := (σ t).world.notices ++ notices } := by
  induction notices generalizing t with
  | nil => exact ⟨hfocus, by simp⟩
  | cons notice rest ih =>
    have hlogged : σ (t + 1) = { σ t with
        world := (σ t).world.log notice
        focus := some (a, K (rest.foldr log p)) } := by
      rw [List.foldr_cons, log, hK.write] at hfocus
      exact hσ.advance hfocus
    obtain ⟨hend, hworld⟩ := ih (t := t + 1) (by rw [hlogged])
    rw [Nat.add_right_comm] at hend hworld
    refine ⟨hend, hworld.trans ?_⟩
    simp [hlogged, World.log]

theorem Resumption.forkEnds
    (h : Resumption (fun n => σ (s + n)) j a (fun ends => K (joined ends)) left first second t)
    (hσ : Timeline σ) (hm : Reachable (σ 0)) (hK : Surrounds K) :
    ForkEnds σ s j a K left first second (s + t) := by
  obtain ⟨t₁, t₂, hlt, ht₂, hfirst, hsecond⟩ := h.halt
  obtain ⟨o, hjoined, hfault⟩ := joined_pair left first second
  have hfocus : (σ (s + t)).focus =
      some (a, K ((laterFailure first second).foldr log (ended o))) := by
    rw [← hjoined, h.focus]
  obtain ⟨hend, hworld⟩ := hσ.logs hK _ hfocus
  exact {
    sides := ⟨s + t₁, s + t₂, by omega, by omega, hσ.finishes hm hfirst, hσ.finishes hm hsecond⟩
    waits := fun i hi hit => by
      obtain ⟨i, rfl⟩ := Nat.exists_eq_add_of_le (Nat.le_of_lt hi)
      exact h.waits i (by omega) (by omega)
    runs := ⟨_, hfocus⟩
    ends := ⟨o, hend, hfault⟩
    logs := hworld
    debug := fun _ => debug_of_mem_laterFailure }

/-- Which side it was that ended first is settled by the timeline. -/
theorem ForkEnds.of_halts {left' : Bool} {t₁ t₂ : Nat} (h : ForkEnds σ s j a K left' o o' t)
    (hσ : Timeline σ) (hm : Reachable (σ 0)) (hlt : t₁ < t₂)
    (hfirst : Halts (σ t₁) (.side j left) first) (hsecond : Halts (σ t₂) (.side j !left) second) :
    ForkEnds σ s j a K left first second t := by
  obtain ⟨s₁, s₂, hslt, -, h₁, h₂⟩ := h.sides
  have hfirst := hσ.finishes hm hfirst
  have hsecond := hσ.finishes hm hsecond
  by_cases hleft : left' = left
  · subst hleft
    obtain ⟨-, rfl⟩ := h₁.unique hfirst
    obtain ⟨-, rfl⟩ := h₂.unique hsecond
    exact h
  · obtain rfl : left' = !left := Bool.eq_not_of_ne hleft
    rw [Bool.not_not] at h₂
    obtain ⟨rfl, -⟩ := h₁.unique hsecond
    obtain ⟨rfl, -⟩ := h₂.unique hfirst
    exact absurd hslt (Nat.lt_asymm hlt)

/-- A side does not run before it has been started. -/
theorem lt_of_halts (hσ : Timeline σ) (hm : Reachable (σ 0))
    (hhalts : Halts (σ t) (.side (σ s).joins.length left) o) : s < t := by
  by_contra hle
  obtain ⟨place, huniform⟩ := (hm.of_reaches (hσ.reaches (Nat.zero_le t))).uniform
  obtain ⟨p, hfocus, -⟩ := hhalts
  have hrunning := huniform.placed.running hfocus
  rw [huniform.placed.unborn (hσ.joins_le (Nat.le_of_not_lt hle))] at hrunning
  cases hrunning

/-- In any run, for every fork that starts its two sides, be it in a side of another fork or not:
the fork goes on only after both sides have ended. It ends with the failure of the side that ended
first, if one of them has failed, and it logs the failure of the other one, if both have. If every
turn is taken in the end, it does so whenever both sides end. -/
theorem fork_raises_first_failure (hσ : Timeline σ) (hm : Reachable (σ 0)) (hK : Surrounds K)
    {rest : Process} {side x : Nat}
    (hfocus : (σ s).focus = some (a, K (both rest (dispatch side x leaf) joined)))
    (hj : j = (σ s).joins.length) :
    .resume (.side j true) rest ∈ (σ (s + 1)).ready ∧
    .resume (.side j false) (dispatch side x leaf) ∈ (σ (s + 1)).ready ∧
    (∀ n q, s < n → (σ n).focus = some (a, q) →
      ∃ left first second t, t ≤ n ∧ ForkEnds σ s j a K left first second t) ∧
    (Fair σ → ∀ left first second t₁ t₂, t₁ < t₂ → Halts (σ t₁) (.side j left) first →
      Halts (σ t₂) (.side j !left) second → ∃ t, ForkEnds σ s j a K left first second t) := by
  subst hj
  have hboth := hfocus.trans (congrArg (fun q => some (a, q)) (hK.both _ _ _))
  have hsplit : σ (s + 1) = (σ s).split a rest (dispatch side x leaf) fun ends => K (joined ends) :=
    hσ.advance hboth
  have hreach : Reachable (σ s) := hm.of_reaches (hσ.reaches (Nat.zero_le s))
  have hgoesOn : ∀ n q, s < n → (σ n).focus = some (a, q) → ∃ left first second t, t ≤ n ∧
      ForkEnds σ s (σ s).joins.length a K left first second t := by
    intro n q hn hq
    obtain ⟨n, rfl⟩ := Nat.exists_eq_add_of_le (Nat.le_of_lt hn)
    have hpos : 0 < n := by omega
    obtain ⟨t, left, first, second, ht, h⟩ :=
      (stage_of_split (hσ.shift s) hreach hboth hpos).resumed_of_focus hpos hq
    exact ⟨left, first, second, s + t, by omega, h.forkEnds hσ hm hK⟩
  refine ⟨by simp [hsplit, split], by simp [hsplit, split], hgoesOn, ?_⟩
  intro hfair left first second t₁ t₂ hlt hfirst hsecond
  have hends : ∀ side, ∃ t o, Halts (σ (s + t)) (.side (σ s).joins.length side) o := by
    intro side
    by_cases hside : side = left
    · obtain ⟨t, rfl⟩ := Nat.exists_eq_add_of_lt (lt_of_halts hσ hm hfirst)
      exact ⟨t + 1, first, hside ▸ hfirst⟩
    · obtain ⟨t, rfl⟩ := Nat.exists_eq_add_of_lt (lt_of_halts hσ hm hsecond)
      exact ⟨t + 1, second, Bool.eq_not_of_ne hside ▸ hsecond⟩
  obtain ⟨n, q, hpos, hq⟩ := (hfair.shift s).runs_again (hσ.shift s) hreach hboth hends
  obtain ⟨left', first', second', t, -, h⟩ := hgoesOn (s + n) q (by omega) hq
  exact ⟨t, h.of_halts hσ hm hlt hfirst hsecond⟩

/-- A composer with a fork, and in its branch another one. All three of them fail: the two sides in
the branch, and then the rest of the outer chain. -/
def nestedWorld : World :=
  (Build.outcome
    (do
      let outer ← Build.composerOf []
      let branch ← Build.fork outer []
      let _ ← Build.fork branch [.link (failing 3 "slow")]
      let _ ← Build.use branch [.link (failing 1 "fast")]
      Build.use outer [.link (failing 6 "last")])
    { client := none, me := default, contexts := [default] }).2

/-- The inner fork raises the failure that came first. Its sides have both failed before the rest of
the outer chain does, but it has not ended by then, so the outer fork raises the failure of the
rest. -/
theorem fork_raises_first_failure_nested : ∃ K K' t t',
    ForkEnds (fun n => run n (started nestedWorld 0)) 28 1 (.side 0 false) K true
      (.error (.raised .value (.str "fast"))) (.error (.raised .value (.str "slow"))) t ∧
    ForkEnds (fun n => run n (started nestedWorld 0)) 11 0 (.root 0) K' true
      (.error (.raised .value (.str "last"))) (.error (.raised .value (.str "fast"))) t' := by
  have hσ := timeline_run (started nestedWorld 0)
  have hm := reachable_run_started nestedWorld 0 0
  have hfair : Fair fun n => run n (started nestedWorld 0) :=
    fair_run_of_stopped (n := 72) rfl
  obtain ⟨rest, k, hinner⟩ : ∃ rest k, (run 28 (started nestedWorld 0)).focus =
      some (.side 0 false, (both rest (dispatch 3 0 leaf) joined).andThen k) := ⟨_, _, rfl⟩
  obtain ⟨rest', k', houter⟩ : ∃ rest k, (run 11 (started nestedWorld 0)).focus =
      some (.root 0, (both rest (dispatch 1 0 leaf) joined).andThen k) := ⟨_, _, rfl⟩
  obtain ⟨-, -, -, hinner⟩ :=
    fork_raises_first_failure hσ hm (s := 28) (.andThen k .hole) hinner rfl
  obtain ⟨-, -, -, houter⟩ :=
    fork_raises_first_failure hσ hm (s := 11) (.andThen k' .hole) houter rfl
  obtain ⟨t, ht⟩ := hinner hfair true _ _ 44 56 (by decide) ⟨_, rfl, .raised _⟩ ⟨_, rfl, .raised _⟩
  obtain ⟨t', ht'⟩ := houter hfair true _ _ 62 65 (by decide) ⟨_, rfl, .raised _⟩
    ⟨_, rfl, .raised _⟩
  exact ⟨_, _, t, t', ht, ht'⟩

end Machine
end UpdateDispatch
