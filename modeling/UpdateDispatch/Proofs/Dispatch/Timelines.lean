import UpdateDispatch.Proofs.Dispatch.Lockstep

/-!
# Timelines

Under `Next` the turns of the queue are taken in any order, so a join may hear first of the side
that ended last. `Punctual` leaves the order of the turns open as well, but a join is told of its
sides in the order in which they ended.

A `Timeline` gives the state at every moment of a run, so that one can say what came first. It is
`Fair` if every turn is taken in the end. The runs of the program are timelines (`timeline_run`),
and they are fair unless somebody keeps its turn for ever (`fair_run`): the turns before a given one
become fewer whenever no process runs.
-/

namespace UpdateDispatch

open Relation

namespace Machine

open Process

variable {m m' : Machine} {a : Owner} {p : Process} {t : Turn} {σ : Nat → Machine} {i n : Nat}

/-! ## Punctual steps -/

/-- The turn `t` is taken. No turn before it tells the same join of a side. -/
inductive Takes (t : Turn) (m : Machine) : Machine → Prop
  | mk {before after : List Turn} (hfocus : m.focus = none)
      (hready : m.ready = before ++ t :: after)
      (hfirst : ∀ j left o, t = .settled j left o → ∀ left' o', .settled j left' o' ∉ before) :
      Takes t m (take t { m with ready := before ++ after })

/-- One step, where the turns of the queue are taken in any order that tells a join of its sides as
they ended. -/
inductive Punctual (m : Machine) : Machine → Prop
  | advance {a : Owner} {p : Process} (hfocus : m.focus = some (a, p)) : Punctual m (m.advance a p)
  | turn {t : Turn} {m' : Machine} (h : Takes t m m') : Punctual m m'

theorem Takes.next (h : Takes t m m') : Next m m' := by
  cases h with
  | mk hfocus hready => exact .turn hfocus hready

theorem Punctual.next (h : Punctual m m') : Next m m' := by
  cases h with
  | advance hfocus => exact .advance hfocus
  | turn h => exact h.next

theorem Takes.idle (h : Takes t m m') : m.focus = none := by
  cases h with
  | mk hfocus => exact hfocus

/-- Who takes its turn runs. -/
theorem Takes.focus (h : Takes (.resume a p) m m') : m'.focus = some (a, p) := by
  cases h with
  | mk => rfl

/-- The first turn can always be taken. -/
theorem takes_head {rest : List Turn} (hfocus : m.focus = none) (hready : m.ready = t :: rest) :
    Takes t m (take t { m with ready := rest }) := by
  rw [← List.nil_append rest] at hready ⊢
  exact .mk hfocus hready fun _ _ _ _ _ _ => List.not_mem_nil

theorem step_of_ready {rest : List Turn} (hfocus : m.focus = none) (hready : m.ready = t :: rest) :
    m.step = some (take t { m with ready := rest }) := by
  rw [step, hfocus, hready]
  cases t with
  | resume b p => simp only [take, focusOn]
  | settled j left o => rfl

theorem punctual_of_step (h : m.step = some m') : Punctual m m' := by
  rcases hfocus : m.focus with _ | ⟨a, p⟩
  · rcases hready : m.ready with _ | ⟨t, rest⟩
    · rw [step, hfocus, hready] at h
      cases h
    · rw [step_of_ready hfocus hready] at h
      cases h
      exact .turn (takes_head hfocus hready)
  · rw [step_of_focus hfocus] at h
    cases h
    exact .advance hfocus

theorem focus_of_stopped (h : m.step = none) : m.focus = none := by
  rcases hfocus : m.focus with _ | ⟨a, p⟩
  · rfl
  · rw [step_of_focus hfocus] at h
    cases h

/-! ## The queue -/

theorem prefix_finish (a : Owner) (o : Outcome) (m : Machine) :
    m.ready <+: (m.finish a o).ready := by
  cases a with
  | root index => exact List.prefix_rfl
  | side j left | shared task => exact List.prefix_append _ _

/-- Turns are added at the end of the queue. -/
theorem prefix_advance (a : Owner) (p : Process) (m : Machine) :
    m.ready <+: (m.advance a p).ready := by
  cases p with
  | value v | raised f => exact prefix_finish a _ m
  | pause p | both l r k | start p k => exact List.prefix_append _ _
  | await task k =>
    simp only [advance]
    split
    · exact List.prefix_rfl
    · exact List.prefix_rfl
    · exact prefix_finish a _ m
  | _ => exact List.prefix_rfl

theorem prefix_take (t : Turn) (m : Machine) : m.ready <+: (take t m).ready := by
  cases t with
  | resume b p => exact List.prefix_rfl
  | settled j left o =>
    simp only [take, settle]
    split
    · exact List.prefix_rfl
    · split
      · exact List.prefix_rfl
      · exact List.prefix_append _ _

/-- A turn is in the queue until it is taken. -/
theorem Punctual.mem_ready (h : Punctual m m') (ht : t ∈ m.ready) :
    t ∈ m'.ready ∨ Takes t m m' := by
  cases h with
  | @advance a p => exact .inl ((prefix_advance a p m).subset ht)
  | @turn u _ h =>
    by_cases heq : t = u
    · exact .inr (heq ▸ h)
    · cases h with
      | @mk before after _ hready =>
        have hrest : t ∈ before ++ after := by
          rw [hready] at ht
          simpa [heq] using ht
        exact .inl ((prefix_take u { m with ready := before ++ after }).subset hrest)

/-! ## Timelines -/

/-- The state at every moment of a run. A run that has come to its end stays there. -/
def Timeline (σ : Nat → Machine) : Prop :=
  ∀ n, Punctual (σ n) (σ (n + 1)) ∨ ((σ n).step = none ∧ σ (n + 1) = σ n)

/-- Every turn is taken in the end. -/
def Fair (σ : Nat → Machine) : Prop :=
  ∀ n t, t ∈ (σ n).ready → ∃ i, n ≤ i ∧ Takes t (σ i) (σ (i + 1))

theorem Timeline.next (h : Timeline σ) (n : Nat) : ReflTransGen Next (σ n) (σ (n + 1)) := by
  rcases h n with hstep | ⟨-, heq⟩
  · exact .single hstep.next
  · rw [heq]

theorem Timeline.reaches (h : Timeline σ) (hle : n ≤ i) : ReflTransGen Next (σ n) (σ i) := by
  induction hle with
  | refl => exact .refl
  | step _ ih => exact ih.trans (h.next _)

theorem Timeline.advance (h : Timeline σ) (hfocus : (σ n).focus = some (a, p)) :
    σ (n + 1) = (σ n).advance a p := by
  rcases h n with hstep | ⟨hstep, -⟩
  · exact hstep.next.eq_advance hfocus
  · rw [step_of_focus hfocus] at hstep
    cases hstep

theorem Timeline.mem_ready (h : Timeline σ) (ht : t ∈ (σ n).ready) :
    t ∈ (σ (n + 1)).ready ∨ Takes t (σ n) (σ (n + 1)) := by
  rcases h n with hstep | ⟨-, heq⟩
  · exact hstep.mem_ready ht
  · exact .inl (heq ▸ ht)

theorem Timeline.joins_le (h : Timeline σ) (hle : n ≤ i) :
    (σ n).joins.length ≤ (σ i).joins.length := by
  induction hle with
  | refl => exact Nat.le_refl _
  | @step i _ ih =>
    rcases h i with hstep | ⟨-, heq⟩
    · exact ih.trans hstep.next.joins_le
    · exact heq ▸ ih

theorem Timeline.shift (h : Timeline σ) (k : Nat) : Timeline fun n => σ (k + n) :=
  fun n => h (k + n)

theorem Fair.shift (h : Fair σ) (k : Nat) : Fair fun n => σ (k + n) := by
  intro n t ht
  obtain ⟨i, hi, htakes⟩ := h (k + n) t ht
  obtain ⟨d, rfl⟩ := Nat.exists_eq_add_of_le hi
  exact ⟨n + d, Nat.le_add_right n d, by simpa [Nat.add_assoc] using htakes⟩

/-! ## Runs of the program -/

/-- The states of a run of the program are a timeline. -/
theorem timeline_run (m : Machine) : Timeline fun n => run n m := by
  intro n
  dsimp only
  rcases hstep : (run n m).step with _ | s
  · exact .inr ⟨rfl, run_add_of_stopped hstep 1⟩
  · rw [run_succ n m hstep]
    exact .inl (punctual_of_step hstep)

/-- When the running process has given up its turn, the queue has only become longer. -/
theorem exists_idle (h : ∀ n, ∃ i, n ≤ i ∧ (run i m).focus = none) (n : Nat) :
    ∃ i, n ≤ i ∧ (run i m).focus = none ∧ (run n m).ready <+: (run i m).ready := by
  obtain ⟨i, hni, hidle⟩ := h n
  induction hni using Nat.decreasingInduction with
  | self => exact ⟨i, Nat.le_refl i, hidle, List.prefix_rfl⟩
  | of_succ n hlt ih =>
    obtain ⟨k, hk, hidle', hready⟩ := ih
    rcases hfocus : (run n m).focus with _ | ⟨a, p⟩
    · exact ⟨n, Nat.le_refl n, hfocus, List.prefix_rfl⟩
    · rw [run_succ n m (step_of_focus hfocus)] at hready
      exact ⟨k, Nat.le_of_succ_le hk, hidle', (prefix_advance a p _).trans hready⟩

/-- The program takes a turn when those before it have been taken. -/
theorem exists_takes (h : ∀ n, ∃ i, n ≤ i ∧ (run i m).focus = none) {before after : List Turn}
    (hready : (run n m).ready = before ++ t :: after) :
    ∃ i, n ≤ i ∧ Takes t (run i m) (run (i + 1) m) := by
  induction before generalizing n after with
  | nil =>
    obtain ⟨i, hi, hidle, more, hmore⟩ := exists_idle h n
    rw [hready, List.nil_append, List.cons_append] at hmore
    refine ⟨i, hi, ?_⟩
    rw [run_succ i m (step_of_ready hidle hmore.symm)]
    exact takes_head hidle hmore.symm
  | cons u before ih =>
    obtain ⟨i, hi, hidle, more, hmore⟩ := exists_idle h n
    rw [hready, List.cons_append, List.cons_append] at hmore
    have hstep := run_succ i m (step_of_ready hidle hmore.symm)
    obtain ⟨last, hlast⟩ :=
      prefix_take u { run i m with ready := before ++ t :: after ++ more }
    rw [← hstep, List.append_assoc, List.append_assoc] at hlast
    obtain ⟨k, hk, htakes⟩ := ih hlast.symm
    exact ⟨k, by omega, htakes⟩

/-- If no process keeps its turn for ever, the program takes every turn. -/
theorem fair_run (h : ∀ n, ∃ i, n ≤ i ∧ (run i m).focus = none) : Fair fun n => run n m := by
  intro n t ht
  obtain ⟨before, after, hready⟩ := List.append_of_mem ht
  exact exists_takes h hready

/-- If it comes to its end, the program takes every turn. -/
theorem fair_run_of_stopped (h : (run n m).step = none) : Fair fun n => run n m := by
  refine fair_run fun i => ⟨n + i, Nat.le_add_left i n, ?_⟩
  rw [run_add_of_stopped h]
  exact focus_of_stopped h

end Machine
end UpdateDispatch
