import UpdateDispatch.Proofs.Dispatch.Branching
import UpdateDispatch.Proofs.Dispatch.Interleaving
import UpdateDispatch.Proofs.Dispatch.Lone

/-!
# Branches in a run

In a run of the program, the composer `side` may be started as a branch beside the rest of a chain,
any number of times. Whatever a branch has started runs for it (`InBranch`), and everything else is
the rest: `NotedByRest` says what the rest has noted and logged. A branch is `Unobtrusive` if its
processes change nothing but what is noted and logged and the marks of boundaries, and if it does
not raise.
-/

namespace UpdateDispatch

open Relation

/-- All that has changed is what is noted and logged, and marks. -/
def World.NotesOnly (w v : World) : Prop :=
  ∃ events notices marks, v = { w with events, notices, marks }

namespace Machine

open Process

section Branches

variable (side : Nat) (m₀ : Machine)

/-- In the run from `m₀`, the join `j` is one at which `side` was started beside something. -/
def BranchAt (j : Nat) : Prop :=
  ∃ m a q x k, ReflTransGen Goes m₀ m ∧ m.focus = some (a, .both q (dispatch side x leaf) k) ∧
    m.joins.length = j

/-- The owner runs for a branch: it is one, or it was started by one. -/
def InBranch (m : Machine) (a : Owner) : Prop :=
  ∃ j, BranchAt side m₀ j ∧ Below 0 m (.side j false) a

/-- The run from `m₀` has come to a machine, and the rest has noted `es` and logged `ns`. -/
inductive NotedByRest : Machine → List Event → List Notice → Prop
  | start : NotedByRest m₀ [] []
  | rest {m m' : Machine} {es : List Event} {ns : List Notice} (h : NotedByRest m es ns)
      (hgo : Goes m m') (hrest : ∀ {b p}, m.focus = some (b, p) → ¬ InBranch side m₀ m b) :
      NotedByRest m' (es ++ m'.world.events.drop m.world.events.length)
        (ns ++ m'.world.notices.drop m.world.notices.length)
  | branch {m m' : Machine} {es : List Event} {ns : List Notice} {b : Owner} {p : Process}
      (h : NotedByRest m es ns) (hgo : Goes m m') (hfocus : m.focus = some (b, p))
      (hb : InBranch side m₀ m b) : NotedByRest m' es ns

/-- In the run from `m₀`, the branches change nothing that others see, and none of them raises. -/
structure Unobtrusive : Prop where
  keeps : ∀ {m b p}, ReflTransGen Goes m₀ m → m.focus = some (b, p) →
    InBranch side m₀ m b → m.world.NotesOnly (m.advance b p).world
  succeeds : ∀ {m j f}, ReflTransGen Goes m₀ m → BranchAt side m₀ j →
    m.focus ≠ some (.side j false, .raised f)

/-- A branch runs, or its turn is the next one. -/
def BranchGoes (m : Machine) : Prop :=
  (∃ b p, m.focus = some (b, p) ∧ InBranch side m₀ m b) ∨
    (m.focus = none ∧ ∃ t rest, m.ready = t :: rest ∧ InBranch side m₀ m t.owner)

end Branches

/-- The running process is about to start a branch of any composer. -/
def ReachesFork (m : Machine) : Prop :=
  ∃ a q i x k, m.focus = some (a, .both q (dispatch i x leaf) k)

variable {side : Nat} {m₀ m m' : Machine} {a b : Owner} {j : Nat}
  {p q r : Process} {k : Settled → Process} {es : List Event} {ns : List Notice}

/-! ## Branches and joins -/

theorem joins_le_of_goes (h : ReflTransGen Goes m m') : m.joins.length ≤ m'.joins.length := by
  induction h with
  | refl => exact Nat.le_refl _
  | tail _ hgo ih => exact ih.trans (next_of_step hgo).joins_le

/-- A join is made at one place of a run. -/
theorem eq_of_split {m₁ m₂ : Machine} {a₁ a₂ : Owner} {l₁ l₂ r₁ r₂ : Process}
    {k₁ k₂ : Settled → Process} (h₁ : ReflTransGen Goes m₀ m₁) (h₂ : ReflTransGen Goes m₀ m₂)
    (hfocus₁ : m₁.focus = some (a₁, .both l₁ r₁ k₁))
    (hfocus₂ : m₂.focus = some (a₂, .both l₂ r₂ k₂))
    (hlength : m₁.joins.length = m₂.joins.length) : m₁ = m₂ := by
  have hlater : ∀ {m m' : Machine} {a l r k}, m.focus = some (a, .both l r k) →
      m.joins.length = m'.joins.length → ReflTransGen Goes m m' → m = m' := by
    intro m m' a l r k hfocus hlength h
    rcases ReflTransGen.cases_head h with heq | ⟨s, hgo, h⟩
    · exact heq
    · have hle := joins_le_of_goes h
      rw [Goes, step_of_focus hfocus] at hgo
      cases hgo
      have hgrown : (m.advance a (.both l r k)).joins.length = m.joins.length + 1 :=
        List.length_append
      omega
  have hunique : Relator.RightUnique Goes := fun _ _ _ h h' => Option.some.inj (h.symm.trans h')
  rcases ReflTransGen.total_of_right_unique hunique h₁ h₂ with h | h
  · exact hlater hfocus₁ hlength h
  · exact (hlater hfocus₂ hlength.symm h).symm

theorem not_branchAt (h : ReflTransGen Goes m₀ m) (hfocus : m.focus = some (a, .both q r k))
    (hr : ∀ x, r ≠ dispatch side x leaf) : ¬ BranchAt side m₀ m.joins.length := by
  rintro ⟨m', a', q', x, k', h', hfocus', hlength⟩
  obtain rfl := eq_of_split h' h hfocus' hfocus hlength
  rw [hfocus] at hfocus'
  cases hfocus'
  exact hr x rfl

/-! ## What the rest has noted -/

theorem NotedByRest.reaches (h : NotedByRest side m₀ m es ns) : ReflTransGen Goes m₀ m := by
  induction h with
  | start => exact .refl
  | rest _ hgo _ ih => exact ih.tail hgo
  | branch _ hgo _ _ ih => exact ih.tail hgo

/-- A step that notes nothing. -/
structure Silent (m m' : Machine) : Prop where
  goes : Goes m m'
  events : m'.world.events = m.world.events
  notices : m'.world.notices = m.world.notices

theorem goes_of_silent (h : ReflTransGen Silent m m') : ReflTransGen Goes m m' :=
  ReflTransGen.mono (fun _ _ hgo => hgo.goes) _ _ h

theorem transGen_of_silent (h : TransGen Silent m m') : TransGen Goes m m' :=
  TransGen.mono (fun _ _ hgo => hgo.goes) _ _ h

theorem noted_of_silent (h : ReflTransGen Silent m m') :
    m'.world.events = m.world.events ∧ m'.world.notices = m.world.notices := by
  induction h with
  | refl => exact ⟨rfl, rfl⟩
  | tail _ hgo ih => exact ⟨hgo.events.trans ih.1, hgo.notices.trans ih.2⟩

theorem NotedByRest.silent (h : NotedByRest side m₀ m es ns) (hgo : Silent m m') :
    NotedByRest side m₀ m' es ns := by
  by_cases hb : ∃ b p, m.focus = some (b, p) ∧ InBranch side m₀ m b
  · obtain ⟨b, p, hfocus, hb⟩ := hb
    exact h.branch hgo.goes hfocus hb
  · have hrest := h.rest hgo.goes fun hfocus hb' => hb ⟨_, _, hfocus, hb'⟩
    rwa [hgo.events, hgo.notices, List.drop_length, List.drop_length, List.append_nil,
      List.append_nil] at hrest

theorem NotedByRest.silently (h : NotedByRest side m₀ m es ns) (hgo : ReflTransGen Silent m m') :
    NotedByRest side m₀ m' es ns := by
  induction hgo with
  | refl => exact h
  | tail _ hgo ih => exact ih.silent hgo

end Machine

end UpdateDispatch
