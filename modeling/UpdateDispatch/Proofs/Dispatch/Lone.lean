import UpdateDispatch.Proofs.Dispatch.Mirrors

/-!
# Processes that run alone, one thing after the other

`Lone.Goes` is a step of a process that runs alone. What it does is done one thing after the other:
when it calls one continuation twice at once, the second call is made after the first one has come
back. Whoever waits for what a call gives awaits it, so the marks of the ends of calls play no part.

A branch beside the rest of a chain has no step of this kind. A lone process that comes to one is
stuck (`Lone.AtFork`).
-/

namespace UpdateDispatch

open Process Relation

/-- A process that runs alone, with the guards that there are and the state. -/
structure Lone where
  guards : List Bool
  world : World
  process : Process

namespace Lone

/-- One step of a lone process. -/
inductive Goes : Lone → Lone → Prop
  | read {g : List Bool} {w : World} {k : World → Process} : Goes ⟨g, w, .read k⟩ ⟨g, w, k w⟩
  | write {g : List Bool} {w : World} {f : World → World} {p : Process} :
      Goes ⟨g, w, .write f p⟩ ⟨g, f w, p⟩
  | newGuard {g : List Bool} {w : World} {k : Nat → Process} :
      Goes ⟨g, w, .newGuard k⟩ ⟨g ++ [false], w, k g.length⟩
  | checkGuard {g : List Bool} {w : World} {i : Nat} {k : Bool → Process} :
      Goes ⟨g, w, .checkGuard i k⟩ ⟨g, w, k (g[i]?.getD false)⟩
  | useGuard {g : List Bool} {w : World} {i : Nat} {p : Process} :
      Goes ⟨g, w, .useGuard i p⟩ ⟨g.set i true, w, p⟩
  | pause {g : List Bool} {w : World} {p : Process} : Goes ⟨g, w, .pause p⟩ ⟨g, w, p⟩
  | enter {g : List Bool} {w : World} {l : Link} {x : Nat} {next : Process}
      {k : Outcome → Process} :
      Goes ⟨g, w, .enter l x next k⟩ ⟨g, w, (l.call x next).andThen k⟩
  | race {g : List Bool} {w : World} {q : Process} {k : Settled → Process}
      (hq : ∀ i x, q ≠ dispatch i x leaf) :
      Goes ⟨g, w, .both q q k⟩
        ⟨g, w, q.andThen fun o => q.andThen fun o' =>
          k { left := o, right := o', leftFirst := true }⟩

/-- The next thing to do is to start a branch beside the rest of the chain. -/
def AtFork (s : Lone) : Prop := ∃ q i x k, s.process = .both q (dispatch i x leaf) k

/-- The process has ended. -/
def Ended (s : Lone) (o : Outcome) : Prop := s.process = ended o

variable {s t t' : Lone} {o o' : Outcome}

theorem Goes.unique (h : Goes s t) (h' : Goes s t') : t = t' := by
  cases h <;> cases h' <;> rfl

/-- A lone process that comes to where it is stuck goes on only so many times. -/
theorem acc_of_stuck (h : ReflTransGen Goes s t) (hstuck : ∀ u, ¬ Goes t u) :
    Acc (Function.swap Goes) s := by
  induction h using ReflTransGen.head_induction_on with
  | refl => exact .intro _ fun u hu => absurd hu (hstuck u)
  | head hgo _ ih =>
    refine .intro _ fun u hu => ?_
    rwa [Goes.unique hu hgo]

/-- What a lone process comes to goes on to where it is stuck. -/
theorem reaches_of_stuck {u : Lone} (hu : ReflTransGen Goes s u) (h : ReflTransGen Goes s t)
    (hstuck : ∀ u, ¬ Goes t u) : ReflTransGen Goes u t := by
  have hunique : Relator.RightUnique Goes := fun _ _ _ h h' => h.unique h'
  rcases ReflTransGen.total_of_right_unique hunique hu h with h | h
  · exact h
  · rcases ReflTransGen.cases_head h with rfl | ⟨t₁, hgo, -⟩
    · exact .refl
    · exact absurd hgo (hstuck t₁)

/-- A lone process is stuck in one place at most. -/
theorem eq_of_stuck {t' : Lone} (h : ReflTransGen Goes s t) (hstuck : ∀ u, ¬ Goes t u)
    (h' : ReflTransGen Goes s t') (hstuck' : ∀ u, ¬ Goes t' u) : t' = t := by
  rcases ReflTransGen.cases_head (reaches_of_stuck h' h hstuck) with heq | ⟨u, hgo, -⟩
  · exact heq
  · exact absurd hgo (hstuck' u)

theorem Goes.not_atFork (h : Goes s t) : ¬ s.AtFork := by
  rintro ⟨q, i, x, k, heq⟩
  cases h <;> cases heq
  next hq => exact hq i x rfl

theorem Goes.not_ended (h : Goes s t) : ¬ s.Ended o := by
  intro heq
  cases h <;> cases o <;> cases heq

theorem Ended.not_atFork (h : s.Ended o) : ¬ s.AtFork := by
  rintro ⟨q, i, x, k, heq⟩
  rw [Ended, heq] at h
  cases o <;> cases h

theorem Ended.unique (h : s.Ended o) (h' : s.Ended o') : o = o' := by
  rw [Ended, h] at h'
  cases o <;> cases o' <;> cases h' <;> rfl

end Lone

end UpdateDispatch
