import UpdateDispatch.Proofs.Dispatch.Sound

/-!
# The continuation at every position of a chain

Guards stand between the links of a chain, so what a link gets as its continuation depends on where
it stands. `Receives` gives that continuation: the guarded call of all that comes after the link or,
for the last link of a chain, what the chain itself was called with. A nested composer hands that on
to the chain that it enters, so the same holds there.

In a reachable state a chain is entered with the guarded rest of another chain, with the end of a
run or of a forked branch, or with the mark of a boundary. So a link gets a guard wherever another
link comes after it, at any depth, and only there (`Machine.second_call_refused`): where nothing
comes after it, a second call has nothing to run again.
-/

namespace UpdateDispatch

open Relation Process

/-! ## Positions -/

/-- The chain `l`, called with `next`, calls the link `link` with the continuation `n`. The number
of a guard is the one that is new when the pair is called. -/
inductive Receives (x : Nat) : Link → Process → Link → Process → Prop
  | here {l : Link} {next : Process} : Receives x l next l next
  | first {first second link : Link} {next n : Process} (guard : Nat)
      (h : Receives x first (once guard (second.call x next)) link n) :
      Receives x (.concat first second) next link n
  | second {first second link : Link} {next n : Process} (h : Receives x second next link n) :
      Receives x (.concat first second) next link n

/-- No link of the chain comes after `link`. -/
inductive IsLast (link : Link) : Link → Prop
  | here : IsLast link link
  | second {first second : Link} (h : IsLast link second) : IsLast link (.concat first second)

/-- The continuations that lead to no link: the end of a chain, and the mark of a boundary. -/
inductive Terminal : Process → Prop
  | leaf : Terminal leaf
  | resume (mark : Nat) : Terminal (resume mark)

theorem Receives.guarded_or_last {x : Nat} {l link : Link} {next n : Process}
    (h : Receives x l next link n) :
    (∃ guard rest, n = once guard rest) ∨ (IsLast link l ∧ n = next) := by
  induction h with
  | here => exact .inr ⟨.here, rfl⟩
  | first guard _ ih =>
    rcases ih with hguarded | ⟨-, rfl⟩
    · exact .inl hguarded
    · exact .inl ⟨guard, _, rfl⟩
  | second _ ih => exact ih.imp id fun ⟨hlast, heq⟩ => ⟨.second hlast, heq⟩

namespace Machine

/-- A chain is called with a continuation: it is run for a context, or the running process enters
it. -/
inductive Calls (m : Machine) : Link → Nat → Process → Prop
  | run (l : Link) (x : Nat) : Calls m l x leaf
  | enter {a : Owner} {l : Link} {x : Nat} {next : Process} {k : Outcome → Process}
      (hfocus : m.focus = some (a, .enter l x next k)) : Calls m l x next

variable {m m' : Machine}

/-- A chain is called with a guarded continuation or with one that leads to no link. -/
theorem Calls.guarded_or_terminal {l : Link} {x : Nat} {next : Process} (h : Calls m l x next)
    (hm : Reachable m) : (∃ guard rest, next = once guard rest) ∨ Terminal next := by
  cases h with
  | run l x => exact .inr .leaf
  | enter hfocus =>
    obtain ⟨A, hhanded, -⟩ := hm.sound hfocus
    cases hhanded with
    | leaf => exact .inr .leaf
    | resume _ => exact .inr (.resume _)
    | once _ => exact .inl ⟨_, _, rfl⟩

/-- The guard of a call exists. -/
theorem IsCall.guard_lt {guard : Nat} {rest : Process} {a : Owner} {K : Process → Process}
    (h : IsCall guard rest m a K) (hm : Reachable m) : guard < m.guards.length := by
  have hfocus := h.focus
  rw [h.surrounds.once] at hfocus
  obtain ⟨A, hguard, -⟩ := hm.sound hfocus
  exact hguard

/-- Wherever a link stands in a chain that is called, it gets a guarded continuation, of which every
call after another one is refused, or it is the last link of a chain that ends there. -/
theorem second_call_refused (hm : Reachable m) {l link : Link} {x : Nat} {next n : Process}
    (hcalls : Calls m l x next) (hreceives : Receives x l next link n) :
    (∃ guard rest, n = once guard rest ∧
      ∀ m₁ a₁ K₁, ReflTransGen Next m m₁ → IsCall guard rest m₁ a₁ K₁ →
        ∀ m₂ a₂ K₂, TransGen Next m₁ m₂ → IsCall guard rest m₂ a₂ K₂ →
          Refused guard m₂ a₂ K₂) ∨
    (IsLast link l ∧ n = next ∧ Terminal next) := by
  have hguarded : (∃ guard rest, n = once guard rest) ∨
      (IsLast link l ∧ n = next ∧ Terminal next) := by
    rcases hreceives.guarded_or_last with hguarded | ⟨hlast, rfl⟩
    · exact .inl hguarded
    · exact (hcalls.guarded_or_terminal hm).imp id fun hterminal => ⟨hlast, rfl, hterminal⟩
  refine hguarded.imp ?_ id
  rintro ⟨guard, rest, rfl⟩
  refine ⟨guard, rest, rfl, fun m₁ a₁ K₁ hrun hcall m₂ a₂ K₂ hlater hcall' => ?_⟩
  exact hcall'.refused (hcall.used_later (hcall.guard_lt (hm.of_reaches hrun)) hlater hcall')

/-- A dispatcher with one composer that is run for a context. -/
def startOf (l : Link) : Machine :=
  started { client := none, me := default, composers := [{ chain := l }], contexts := [default] } 0

/-- The script of `retrying` stands before another link, so its second call is refused. -/
theorem second_call_refused_retrying :
    Receives 0 retrying leaf (.script { actions := [.nextCaught, .next], plain := false })
      (once 0 (Link.pass.call 0 leaf)) ∧
    ∃ K, IsCall 0 (Link.pass.call 0 leaf) (run 6 (startOf retrying)) (.root 0) K ∧
      Refused 0 (run 6 (startOf retrying)) (.root 0) K := by
  have hreceives : Receives 0 retrying leaf
      (.script { actions := [.nextCaught, .next], plain := false })
      (once 0 (Link.pass.call 0 leaf)) := .first 0 .here
  obtain ⟨K₁, h₁⟩ :
      ∃ K₁, IsCall 0 (Link.pass.call 0 leaf) (run 4 (startOf retrying)) (.root 0) K₁ :=
    ⟨_, .andThen _ (.andThen _ (.andThen _ (.andThen _ .hole))), rfl⟩
  obtain ⟨K₂, h₂⟩ :
      ∃ K₂, IsCall 0 (Link.pass.call 0 leaf) (run 6 (startOf retrying)) (.root 0) K₂ :=
    ⟨_, .andThen _ (.andThen _ (.andThen _ .hole)), rfl⟩
  have hcalls : Calls (run 2 (startOf retrying)) retrying 0 leaf := .enter rfl
  have hrun : ReflTransGen Next (run 2 (startOf retrying)) (run 4 (startOf retrying)) :=
    .tail (.single (next_of_step rfl)) (next_of_step rfl)
  have hlater : TransGen Next (run 4 (startOf retrying)) (run 6 (startOf retrying)) :=
    .tail (.single (next_of_step rfl)) (next_of_step rfl)
  rcases second_call_refused (reachable_run_started _ 0 2) hcalls hreceives with
    ⟨guard, rest, heq, hrefused⟩ | ⟨-, heq, -⟩
  · obtain rfl : 0 = guard := by injection heq
    exact ⟨hreceives, K₂, h₂, hrefused _ _ _ hrun ⟨h₁.surrounds, heq ▸ h₁.focus⟩ _ _ _ hlater
      ⟨h₂.surrounds, heq ▸ h₂.focus⟩⟩
  · cases heq

/-- A script that calls its continuation twice and then notes the end. -/
def callingTwice : Link :=
  .script { actions := [.next, .next, .note (.str "end")], plain := false }

/-- Alone in a chain it is the last link, and its second call is not refused. -/
theorem last_link_may_call_twice :
    Receives 0 callingTwice leaf callingTwice leaf ∧
      (run 10 (startOf callingTwice)).roots = [some (.ok .null)] ∧
      (run 10 (startOf callingTwice)).world.events = [.note (.str "end")] :=
  ⟨.here, rfl, rfl⟩

end Machine

end UpdateDispatch
