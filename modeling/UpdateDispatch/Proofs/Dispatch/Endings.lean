import UpdateDispatch.Proofs.Dispatch.Lockstep

/-!
# Runs that come to an end

A run of processes that take a bounded number of steps each (`Process.Bounded`) comes to an end,
and its root has ended then (`endsWith_of_bounded`). Two arguments carry this. Every step lowers
the cost of the machine, where whoever is a side of a join bears the cost of what follows the join
(`Costs.step`). And whoever has not ended has a turn or waits for somebody who has one
(`Alive`).

The sequence of the functions of a list is such a process (`bounded_sequence`).
-/

namespace UpdateDispatch

open Relation

namespace Process

variable {p q : Process} {n m : Nat}

/-! ## Bounded processes -/

/-- A process that ends, with all that it starts, within `n` steps. -/
inductive Bounded : Nat → Process → Prop
  | value {n : Nat} (v : Json) : Bounded (n + 1) (.value v)
  | raised {n : Nat} (f : Fault) : Bounded (n + 1) (.raised f)
  | deferred {n : Nat} {p : Process} (h : Bounded n p) : Bounded (n + 1) (.deferred p)
  | read {n : Nat} {k : World → Process} (h : ∀ w, Bounded n (k w)) : Bounded (n + 1) (.read k)
  | write {n : Nat} {f : World → World} {p : Process} (h : Bounded n p) :
      Bounded (n + 1) (.write f p)
  | newGuard {n : Nat} {k : Nat → Process} (h : ∀ i, Bounded n (k i)) :
      Bounded (n + 1) (.newGuard k)
  | checkGuard {n : Nat} {guard : Nat} {k : Bool → Process} (h : ∀ used, Bounded n (k used)) :
      Bounded (n + 1) (.checkGuard guard k)
  | useGuard {n : Nat} {guard : Nat} {p : Process} (h : Bounded n p) :
      Bounded (n + 1) (.useGuard guard p)
  | pause {n : Nat} {p : Process} (h : Bounded n p) : Bounded (n + 1) (.pause p)
  | both {n i j m : Nat} {l r : Process} {k : Settled → Process} (hl : Bounded i l)
      (hr : Bounded j r) (hk : ∀ s, Bounded m (k s)) (hn : i + j + m + 3 ≤ n) :
      Bounded (n + 1) (.both l r k)

theorem Bounded.mono (h : Bounded n p) (hle : n ≤ m) : Bounded m p := by
  induction h generalizing m <;> obtain ⟨d, rfl⟩ := Nat.exists_eq_add_of_lt hle
  case value v => exact .value v
  case raised f => exact .raised f
  case deferred ih => exact .deferred (ih (by omega))
  case read ih => exact .read fun w => ih w (by omega)
  case write ih => exact .write (ih (by omega))
  case newGuard ih => exact .newGuard fun i => ih i (by omega)
  case checkGuard ih => exact .checkGuard fun used => ih used (by omega)
  case useGuard ih => exact .useGuard (ih (by omega))
  case pause ih => exact .pause (ih (by omega))
  case both hl hr hk hn _ _ _ => exact .both hl hr hk (by omega)

theorem Bounded.andThen {k : Outcome → Process} (h : Bounded n p) (hk : ∀ o, Bounded m (k o)) :
    Bounded (n + m) (p.andThen k) := by
  induction h with
  | value v => exact (hk _).mono (by omega)
  | raised f => exact (hk _).mono (by omega)
  | deferred _ ih => exact ih.mono (by omega)
  | read _ ih => exact Nat.add_right_comm .. ▸ .read ih
  | write _ ih => exact Nat.add_right_comm .. ▸ .write ih
  | newGuard _ ih => exact Nat.add_right_comm .. ▸ .newGuard ih
  | checkGuard _ ih => exact Nat.add_right_comm .. ▸ .checkGuard ih
  | useGuard _ ih => exact Nat.add_right_comm .. ▸ .useGuard ih
  | pause _ ih => exact Nat.add_right_comm .. ▸ .pause ih
  | both hl hr _ hn _ _ ih =>
    rw [Nat.add_right_comm]
    exact .both hl hr ih (by omega)

theorem Bounded.onCall {k : Reply → Process} (h : Bounded n p) (hk : ∀ r, Bounded m (k r)) :
    Bounded (n + m) (p.onCall k) := by
  induction h with
  | value v => exact (hk _).mono (by omega)
  | raised f => exact (hk _).mono (by omega)
  | deferred => exact (hk _).mono (by omega)
  | read _ ih => exact Nat.add_right_comm .. ▸ .read ih
  | write _ ih => exact Nat.add_right_comm .. ▸ .write ih
  | newGuard _ ih => exact Nat.add_right_comm .. ▸ .newGuard ih
  | checkGuard _ ih => exact Nat.add_right_comm .. ▸ .checkGuard ih
  | useGuard _ ih => exact Nat.add_right_comm .. ▸ .useGuard ih
  | pause _ ih => exact Nat.add_right_comm .. ▸ .pause ih
  | both hl hr _ hn _ _ ih =>
    rw [Nat.add_right_comm]
    exact .both hl hr ih (by omega)

theorem Bounded.followedBy (hp : Bounded n p) (hq : Bounded (m + 1) q) :
    Bounded (n + (m + 1)) (p.followedBy q) := by
  refine hp.andThen fun o => ?_
  cases o with
  | ok v => exact hq
  | error f => exact .raised f

theorem Bounded.ignored (h : Bounded n p) : Bounded (n + 1) p.ignored :=
  h.followedBy (.value .null)

theorem Quiet.bounded (h : Quiet n p) : Bounded n p := by
  induction h with
  | value v => exact .value v
  | raised f => exact .raised f
  | deferred _ ih => exact .deferred ih
  | read _ ih => exact .read ih
  | write _ _ ih => exact .write ih
  | pause _ ih => exact .pause ih

theorem bounded_record (e : Event) : Bounded (n + 2) (record e) := (prompt_record e).quiet.bounded

/-- The next step of the process has to do with no shared task. -/
structure Unshared (p : Process) : Prop where
  start : ∀ q k, p ≠ .start q k
  await : ∀ t k, p ≠ .await t k

theorem Bounded.unshared (h : Bounded n p) : Unshared p := by
  cases h <;> exact ⟨nofun, nofun⟩

/-! ## Sequences are bounded -/

variable {x : Nat} {fs : List Fn}

theorem bounded_registering (s : UpdateDispatch.Step) : Bounded 3 (registering s) := by
  rw [registering_eq]
  refine .read fun w => .write ?_
  cases registered s w with
  | ok v => exact .value v
  | error f => exact .raised f

/-- An action with a bounded continuation is bounded, whatever the continuation is. -/
theorem bounded_call (a : Action) (n : Nat) :
    ∃ m, ∀ next, Bounded n next → Bounded m (a.call (.between x next)) := by
  by_cases hstep : ∃ s, a = .step s
  · obtain ⟨s, rfl⟩ := hstep
    exact ⟨3, fun _ _ => bounded_registering s⟩
  rcases hcontinues : a.continues with _ | _
  · obtain ⟨m, hquiet⟩ := quiet_call (.between x done) hcontinues fun s heq => hstep ⟨s, heq⟩
    refine ⟨m, fun next _ => ?_⟩
    rw [call_between next done hcontinues]
    exact hquiet.bounded
  cases a with
  | next => exact ⟨n, fun next hnext => hnext⟩
  | nextDropped =>
    refine ⟨n + 1, fun next hnext => hnext.onCall fun r => ?_⟩
    split
    · exact .raised _
    · exact .value _
  | nextCaught =>
    refine ⟨_, fun next hnext => .deferred (hnext.andThen (m := 2) fun o => ?_)⟩
    split
    · exact .value _
    · exact bounded_record _
  | nextTwice =>
    refine ⟨_, fun next hnext => .deferred (.both hnext hnext (m := 2) ?_ (Nat.le_refl _))⟩
    exact fun s => bounded_record _
  | _ => cases hcontinues

theorem bounded_runAll (actions : List Action) (n : Nat) :
    ∃ m, ∀ next, Bounded n next → Bounded m (Action.runAll (.between x next) actions) := by
  induction actions with
  | nil => exact ⟨1, fun next _ => .value _⟩
  | cons a rest ih =>
    obtain ⟨m, hm⟩ := bounded_call (x := x) a n
    obtain ⟨m', hm'⟩ := ih
    exact ⟨_, fun next hnext => (hm next hnext).followedBy ((hm' next hnext).mono (Nat.le_succ m'))⟩

theorem bounded_continuation (h : Bounded n (sequence x fs)) (guard : Nat) :
    Bounded (n + 3) (continuation x guard fs) := by
  unfold continuation
  split
  · exact .deferred (.value _)
  · refine .checkGuard fun used => ?_
    split
    · exact .raised _
    · exact .useGuard (.deferred h)

/-- The functions of a list, one after the other, come to an end. -/
theorem bounded_sequence (x : Nat) (fs : List Fn) : ∃ n, Bounded n (sequence x fs) := by
  induction fs with
  | nil => exact ⟨1, .value _⟩
  | cons f rest ih =>
    cases f with
    | pass => exact ih
    | script s =>
      obtain ⟨n, hn⟩ := ih
      obtain ⟨m, hm⟩ := bounded_runAll (x := x) s.body (n + 3)
      exact ⟨m + 1, .newGuard fun guard => hm _ (bounded_continuation hn guard)⟩

end Process

/-- An owner of a machine with one root and `n` joins. -/
def Owner.Within (n : Nat) : Owner → Prop
  | .root i => i = 0
  | .side j _ => j < n
  | .shared _ => False

namespace Machine

open Process

variable {m m' : Machine} {a : Owner} {p q : Process} {costs : List Nat} {n c d : Nat}

/-! ## Costs -/

/-- What a side of a join bears for what follows the join, given the costs of the joins. -/
def allowance (costs : List Nat) : Owner → Nat
  | .side j _ => costs[j]?.getD 0
  | _ => 0

/-- The cost of a process that takes at most `n` steps. The allowance counts for each of the
processes that it may be split into. -/
def weight (costs : List Nat) (a : Owner) (n : Nat) : Nat := 2 ^ (n + 1) * (allowance costs a + 1)

theorem two_le_pow (n : Nat) : 2 ≤ 2 ^ (n + 1) := by
  have hpos : 1 ≤ 2 ^ n := Nat.one_le_two_pow
  rw [Nat.pow_succ]
  omega

theorem allowance_lt_weight (costs : List Nat) (a : Owner) (n : Nat) :
    allowance costs a + 1 < weight costs a n := by
  have hle : 2 * (allowance costs a + 1) ≤ weight costs a n :=
    Nat.mul_le_mul_right _ (two_le_pow n)
  omega

theorem two_le_weight (costs : List Nat) (a : Owner) (n : Nat) : 2 ≤ weight costs a n := by
  have hlt := allowance_lt_weight costs a n
  omega

theorem weight_succ (costs : List Nat) (a : Owner) (n : Nat) :
    weight costs a (n + 1) = 2 * weight costs a n := by
  unfold weight
  ring

theorem weight_mono (costs : List Nat) (a : Owner) {n n' : Nat} (h : n ≤ n') :
    weight costs a n ≤ weight costs a n' :=
  Nat.mul_le_mul_right _ (Nat.pow_le_pow_right (by omega) (by omega))

theorem allowance_append (costs : List Nat) (d : Nat) (ha : a.Within costs.length) :
    allowance (costs ++ [d]) a = allowance costs a := by
  cases a with
  | side j left => exact congrArg (·.getD 0) (List.getElem?_append_left ha)
  | root i => rfl
  | shared task => rfl

theorem weight_append (costs : List Nat) (d : Nat) (ha : a.Within costs.length) (n : Nat) :
    weight (costs ++ [d]) a n = weight costs a n := by
  unfold weight
  rw [allowance_append costs d ha]

theorem within_append (d : Nat) (ha : a.Within costs.length) : a.Within (costs ++ [d]).length := by
  rw [List.length_append]
  cases a with
  | side j left => exact Nat.lt_succ_of_lt ha
  | root i => exact ha
  | shared task => exact ha

/-- The cost of a turn. -/
inductive TurnCost (costs : List Nat) : Turn → Nat → Prop
  | resume {a : Owner} {p : Process} {n : Nat} (ha : a.Within costs.length) (h : Bounded n p) :
      TurnCost costs (.resume a p) (weight costs a n + 1)
  | settled {j : Nat} {left : Bool} {o : Outcome} (hj : j < costs.length) :
      TurnCost costs (.settled j left o) (allowance costs (.side j left) + 1)

/-- The cost of what runs. -/
inductive FocusCost (costs : List Nat) : Option (Owner × Process) → Nat → Prop
  | idle : FocusCost costs none 0
  | running {a : Owner} {p : Process} {n : Nat} (ha : a.Within costs.length) (h : Bounded n p) :
      FocusCost costs (some (a, p)) (weight costs a n)

/-- What follows a join costs at most `c`. -/
def JoinCost (costs : List Nat) (J : Join) (c : Nat) : Prop :=
  J.owner.Within costs.length ∧ ∃ n, (∀ s, Bounded n (J.next s)) ∧ weight costs J.owner n + 1 ≤ c

/-- The costs of a machine: of its joins, of the running process and of the turns. -/
structure Costs (m : Machine) (costs : List Nat) (c : Nat) (turns : List Nat) : Prop where
  joins : List.Forall₂ (JoinCost costs) m.joins costs
  focus : FocusCost costs m.focus c
  ready : List.Forall₂ (TurnCost costs) m.ready turns

theorem TurnCost.append {t : Turn} (h : TurnCost costs t c) (d : Nat) :
    TurnCost (costs ++ [d]) t c := by
  cases h with
  | resume ha h => exact weight_append costs d ha _ ▸ .resume (within_append d ha) h
  | @settled j left o hj =>
    have ha : (Owner.side j left).Within costs.length := hj
    exact allowance_append costs d ha ▸ .settled (within_append d ha)

theorem JoinCost.append {J : Join} (h : JoinCost costs J c) (d : Nat) :
    JoinCost (costs ++ [d]) J c := by
  obtain ⟨ha, n, hn, hle⟩ := h
  exact ⟨within_append d ha, n, hn, by rwa [weight_append costs d ha]⟩

/-- A step lowers the cost. -/
def Cheapens (m' : Machine) (total : Nat) : Prop :=
  ∃ costs c turns, Costs m' costs c turns ∧ c + turns.sum < total

variable {turns : List Nat}

/-- The running process takes a step. -/
theorem Costs.goesOn (h : Costs m costs (weight costs a (n + 1)) turns)
    (ha : a.Within costs.length) (hq : Bounded n q) (w : World) (guards : List Bool) :
    Cheapens { m with world := w, guards := guards, focus := some (a, q) }
      (weight costs a (n + 1) + turns.sum) := by
  refine ⟨costs, weight costs a n, turns, ⟨h.joins, .running ha hq, h.ready⟩, ?_⟩
  have hweight := two_le_weight costs a n
  rw [weight_succ]
  omega

/-- The running process gives up its turn. -/
theorem Costs.queue (h : Costs m costs c turns) {t : Turn} (ht : TurnCost costs t d) (hd : d < c) :
    Cheapens (m.idle.queue t) (c + turns.sum) := by
  refine ⟨costs, 0, turns ++ [d], ⟨h.joins, .idle, List.rel_append h.ready (.cons ht .nil)⟩, ?_⟩
  rw [List.sum_append, List.sum_singleton]
  omega

theorem Costs.finish (h : Costs m costs (weight costs a n) turns) (ha : a.Within costs.length)
    (o : Outcome) : Cheapens (m.finish a o) (weight costs a n + turns.sum) := by
  cases a with
  | root i =>
    refine ⟨costs, 0, turns, ⟨h.joins, .idle, h.ready⟩, ?_⟩
    have hweight := two_le_weight costs (.root i) n
    omega
  | side j left => exact h.queue (.settled ha) (allowance_lt_weight costs (.side j left) n)
  | shared task => cases ha

/-- The costs of two sides are below that of the process that starts them. -/
theorem weight_both (costs : List Nat) (a : Owner) {n₁ n₂ n₃ n : Nat} (hn : n₁ + n₂ + n₃ + 3 ≤ n) :
    2 ^ (n₁ + 1) * (weight costs a n₃ + 2) + 2 ^ (n₂ + 1) * (weight costs a n₃ + 2) + 2 <
      weight costs a (n + 1) := by
  have hweight := two_le_weight costs a n₃
  have hsplit : weight costs a (n₁ + n₂ + n₃ + 3 + 1) =
      2 * (2 ^ (n₁ + 1) * 2 ^ (n₂ + 1) * (2 * weight costs a n₃)) := by
    unfold weight
    ring
  have hle : weight costs a (n₁ + n₂ + n₃ + 3 + 1) ≤ weight costs a (n + 1) :=
    weight_mono costs a (Nat.succ_le_succ hn)
  have h₁ := two_le_pow n₁
  have h₂ := two_le_pow n₂
  generalize 2 ^ (n₁ + 1) = A at *
  generalize 2 ^ (n₂ + 1) = B at *
  generalize weight costs a n₃ = W at *
  have hsum : (A + B) * (W + 2) ≤ A * B * (2 * W) :=
    Nat.mul_le_mul (Nat.add_le_mul h₁ h₂) (by omega)
  have hpos : 2 * 2 * (2 * 2) ≤ A * B * (2 * W) :=
    Nat.mul_le_mul (Nat.mul_le_mul h₁ h₂) (by omega)
  rw [← Nat.add_mul]
  omega

theorem Costs.split (h : Costs m costs (weight costs a (n + 1)) turns)
    (ha : a.Within costs.length) {l r : Process} {k : Settled → Process} {n₁ n₂ n₃ : Nat}
    (hl : Bounded n₁ l) (hr : Bounded n₂ r) (hk : ∀ s, Bounded n₃ (k s))
    (hn : n₁ + n₂ + n₃ + 3 ≤ n) :
    Cheapens (m.split a l r k) (weight costs a (n + 1) + turns.sum) := by
  have hlength := h.joins.length_eq
  let d := weight costs a n₃ + 1
  have hnew : (costs ++ [d])[costs.length]? = some d := List.getElem?_concat_length
  have hwithin : ∀ left, (Owner.side costs.length left).Within (costs ++ [d]).length := by
    intro left
    rw [List.length_append]
    exact Nat.lt_succ_self _
  have hside : ∀ left n, weight (costs ++ [d]) (.side costs.length left) n =
      2 ^ (n + 1) * (weight costs a n₃ + 2) := by
    intro left n
    rw [weight, allowance, hnew]
    rfl
  unfold Machine.split
  rw [hlength]
  refine ⟨costs ++ [d], 0, turns ++ [weight (costs ++ [d]) (.side costs.length true) n₁ + 1,
    weight (costs ++ [d]) (.side costs.length false) n₂ + 1], ⟨?_, .idle, ?_⟩, ?_⟩
  · refine List.rel_append (h.joins.imp fun _ _ hJ => hJ.append d) (.cons ?_ .nil)
    exact ⟨within_append d ha, n₃, hk, by rw [weight_append costs d ha]⟩
  · refine List.rel_append (h.ready.imp fun _ _ ht => ht.append d) ?_
    exact .cons (.resume (hwithin true) hl) (.cons (.resume (hwithin false) hr) .nil)
  · have hboth := weight_both costs a hn
    rw [hside, hside, List.sum_append]
    simp only [List.sum_cons, List.sum_nil]
    omega

theorem Costs.settle (h : Costs m costs 0 turns) {j : Nat} (hj : j < costs.length) (left : Bool)
    (o : Outcome) :
    Cheapens (m.settle j left o) (allowance costs (.side j left) + 1 + turns.sum) := by
  have hlt : j < m.joins.length := h.joins.length_eq ▸ hj
  have hallowance : allowance costs (.side j left) = costs[j] := by
    rw [allowance, List.getElem?_eq_getElem hj]
    rfl
  have hcost : JoinCost costs m.joins[j] costs[j] := h.joins.get hlt hj
  unfold Machine.settle
  rw [List.getElem?_eq_getElem hlt, hallowance]
  dsimp only
  split
  · refine ⟨costs, 0, turns, ⟨?_, h.focus, h.ready⟩, by omega⟩
    have hset := forall₂_set h.joins
      (a := { m.joins[j] with first := some (left, o) }) (b := costs[j]) hcost j
    rwa [List.set_getElem_self] at hset
  · obtain ⟨ha, n, hn, hle⟩ := hcost
    refine ⟨costs, 0, turns ++ [_], ⟨h.joins, h.focus,
      List.rel_append h.ready (.cons (.resume ha (hn _)) .nil)⟩, ?_⟩
    rw [List.sum_append, List.sum_singleton]
    omega

/-- A step of the running process lowers the cost. -/
theorem Costs.advance (h : Costs m costs c turns) (hfocus : m.focus = some (a, p)) :
    Cheapens (m.advance a p) (c + turns.sum) := by
  have hcost := h.focus
  rw [hfocus] at hcost
  cases hcost with
  | @running _ _ n ha hp =>
    cases hp with
    | value v => exact h.finish ha _
    | raised f => exact h.finish ha _
    | deferred hp => exact h.goesOn ha hp m.world m.guards
    | read hk => exact h.goesOn ha (hk _) m.world m.guards
    | write hp => exact h.goesOn ha hp _ m.guards
    | newGuard hk => exact h.goesOn ha (hk _) m.world _
    | checkGuard hk => exact h.goesOn ha (hk _) m.world m.guards
    | useGuard hp => exact h.goesOn ha hp m.world _
    | @pause n p hp =>
      refine h.queue (.resume ha hp) ?_
      have hweight := two_le_weight costs a n
      rw [weight_succ]
      omega
    | both hl hr hk hn => exact h.split ha hl hr hk hn

/-- Every step lowers the cost. -/
theorem Costs.step (h : Costs m costs c turns) (hstep : m.step = some m') :
    Cheapens m' (c + turns.sum) := by
  rcases hfocus : m.focus with _ | ⟨a, p⟩
  · have hc := h.focus
    rw [hfocus] at hc
    cases hc
    have hready := h.ready
    rw [Machine.step, hfocus] at hstep
    generalize hr : m.ready = ready at hready hstep
    cases hready with
    | nil => cases hstep
    | @cons t d rest turns ht hrest =>
      have hcosts : Costs { m with focus := none, ready := rest } costs 0 turns :=
        ⟨h.joins, .idle, hrest⟩
      cases ht with
      | resume ha hp =>
        cases hstep
        refine ⟨costs, _, turns, ⟨h.joins, .running ha hp, hrest⟩, ?_⟩
        rw [List.sum_cons]
        omega
      | @settled j left o hj =>
        cases hstep
        rw [List.sum_cons, Nat.zero_add]
        exact hcosts.settle hj left o
  · rw [step_of_focus hfocus] at hstep
    cases hstep
    exact h.advance hfocus

/-- A machine whose steps cost something stops. -/
theorem Costs.stops (h : Costs m costs c turns) : ∃ n, (run n m).step = none := by
  generalize htotal : c + turns.sum = total
  induction total using Nat.strong_induction_on generalizing m costs c turns with
  | _ total ih =>
    subst htotal
    rcases hstep : m.step with _ | m'
    · exact ⟨0, hstep⟩
    · obtain ⟨costs', c', turns', h', hlt⟩ := h.step hstep
      obtain ⟨n, hn⟩ := ih _ hlt h' rfl
      exact ⟨n + 1, by rwa [run_of_goes hstep]⟩

/-! ## Whoever has not ended goes on -/

/-- An owner that runs, has a turn, is about to tell its join, or waits for sides that do. -/
inductive Alive (m : Machine) : Owner → Prop
  | running {a : Owner} {p : Process} (h : m.focus = some (a, p)) : Alive m a
  | queued {a : Owner} {p : Process} (h : .resume a p ∈ m.ready) : Alive m a
  | settling {j : Nat} {left : Bool} {o : Outcome} (h : .settled j left o ∈ m.ready) :
      Alive m (.side j left)
  | waiting {j : Nat} {J : Join} (hJ : m.joins[j]? = some J)
      (h : ∀ left, (∀ o, J.first ≠ some (left, o)) → Alive m (.side j left)) : Alive m J.owner

/-- A machine in which somebody goes on has not stopped. -/
theorem Alive.step_ne_none (h : Alive m a) : m.step ≠ none := by
  have hready : ∀ t ∈ m.ready, m.step ≠ none := by
    intro t ht hstep
    rw [Machine.step] at hstep
    split at hstep
    · cases hstep
    · split at hstep
      · next hnil => exact List.not_mem_nil (hnil ▸ ht)
      · cases hstep
      · cases hstep
  induction h with
  | running h =>
    rw [step_of_focus h]
    exact Option.some_ne_none _
  | queued h | settling h => exact hready _ h
  | @waiting j J hJ _ ih =>
    -- at most one of the two sides has told the join
    rcases hfirst : J.first with _ | ⟨left, o⟩
    · exact ih true fun o heq => by rw [hfirst] at heq; cases heq
    · refine ih (!left) fun o heq => ?_
      rw [hfirst] at heq
      cases left <;> cases heq

/-- Joins stay as they are, and everybody who had something to do still has. -/
theorem Alive.map (h : Alive m a) (hfocus : ∀ b p, m.focus = some (b, p) → Alive m' b)
    (hqueued : ∀ b p, .resume b p ∈ m.ready → Alive m' b)
    (hsettling : ∀ j left o, .settled j left o ∈ m.ready → Alive m' (.side j left))
    (hjoins : ∀ (j : Nat) J, m.joins[j]? = some J → m'.joins[j]? = some J) : Alive m' a := by
  induction h with
  | running h => exact hfocus _ _ h
  | queued h => exact hqueued _ _ h
  | settling h => exact hsettling _ _ _ h
  | waiting hJ _ ih => exact .waiting (hjoins _ _ hJ) ih

/-- The same, when the turns that were there stay. -/
theorem Alive.map_ready (h : Alive m a) (hfocus : ∀ b p, m.focus = some (b, p) → Alive m' b)
    (hready : ∀ t ∈ m.ready, t ∈ m'.ready)
    (hjoins : ∀ (j : Nat) J, m.joins[j]? = some J → m'.joins[j]? = some J) : Alive m' a :=
  h.map hfocus (fun _ _ h => .queued (hready _ h)) (fun _ _ _ h => .settling (hready _ h)) hjoins

theorem alive_split (m : Machine) (b : Owner) (l r : Process) (k : Settled → Process) :
    Alive (m.split b l r k) b := by
  have hjoin : (m.split b l r k).joins[m.joins.length]? = some { owner := b, next := k } :=
    List.getElem?_concat_length
  refine .waiting hjoin fun left _ => ?_
  cases left
  · exact .queued (p := r) (List.mem_append_right _ (List.mem_cons_of_mem _ List.mem_cons_self))
  · exact .queued (p := l) (List.mem_append_right _ List.mem_cons_self)

/-- A step of the running process, unless it is a root that ends. -/
theorem Alive.advance (h : Alive m a) {b : Owner} (hfocus : m.focus = some (b, p))
    (hp : Unshared p) (hend : ∀ i o, b = .root i → p ≠ ended o)
    (hb : ∀ task, b ≠ .shared task) : Alive (m.advance b p) a := by
  have hself : ∀ m', Alive m' b → ∀ c q, m.focus = some (c, q) → Alive m' c := by
    intro m' halive c q hc
    rw [hfocus] at hc
    cases hc
    exact halive
  have hgoes : ∀ w guards q, Alive { m with world := w, guards, focus := some (b, q) } a :=
    fun w guards q => h.map_ready (hself _ (.running rfl)) (fun _ ht => ht) (fun _ _ hJ => hJ)
  have hfinish : ∀ o, p = ended o → Alive (m.finish b o) a := by
    intro o hp
    cases b with
    | root i => exact absurd hp (hend i o rfl)
    | side j left =>
      refine h.map_ready (hself _ (.settling (o := o) ?_)) (fun _ ht => ?_) (fun _ _ hJ => hJ)
      · exact List.mem_append_right _ List.mem_cons_self
      · exact List.mem_append_left _ ht
    | shared task => exact absurd rfl (hb task)
  cases p with
  | value v => exact hfinish (.ok v) rfl
  | raised f => exact hfinish (.error f) rfl
  | start q k => exact absurd rfl (hp.start q k)
  | await t k => exact absurd rfl (hp.await t k)
  | pause p =>
    refine h.map_ready (hself _ (.queued (p := p) ?_)) (fun _ ht => ?_) (fun _ _ hJ => hJ)
    · exact List.mem_append_right _ List.mem_cons_self
    · exact List.mem_append_left _ ht
  | both l r k =>
    refine h.map_ready (hself _ (alive_split m b _ _ _)) (fun _ ht => ?_) (fun _ _ hJ => ?_)
    · exact List.mem_append_left _ ht
    · obtain ⟨hlt, -⟩ := List.getElem?_eq_some_iff.mp hJ
      exact (List.getElem?_append_left hlt).trans hJ
  | _ => exact hgoes _ _ _

/-- What a join does when it is told that a side has ended: it remembers the side, or the process
that waited has a turn. -/
theorem joins_settle (j : Nat) (left : Bool) (o : Outcome) {J : Join}
    (hJ : m.joins[j]? = some J) :
    (J.first = none ∧ (m.settle j left o).joins[j]? = some { J with first := some (left, o) }) ∨
      ∃ q, .resume J.owner q ∈ (m.settle j left o).ready := by
  unfold Machine.settle
  rw [hJ]
  dsimp only
  split
  · next hfirst =>
    obtain ⟨hlt, -⟩ := List.getElem?_eq_some_iff.mp hJ
    exact .inl ⟨hfirst, List.getElem?_set_self hlt⟩
  · exact .inr ⟨_, List.mem_append_right _ List.mem_cons_self⟩

theorem getElem?_joins_settle {i j : Nat} (h : i ≠ j) (left : Bool) (o : Outcome) :
    (m.settle j left o).joins[i]? = m.joins[i]? := by
  unfold Machine.settle
  split
  · rfl
  · split
    · exact List.getElem?_set_ne h.symm
    · rfl

theorem mem_ready_settle {t : Turn} (h : t ∈ m.ready) (j : Nat) (left : Bool) (o : Outcome) :
    t ∈ (m.settle j left o).ready := by
  unfold Machine.settle
  split
  · exact h
  · split
    · exact h
    · exact List.mem_append_left _ h

/-- A join is told that a side has ended. Nobody but that side loses its turn. -/
theorem Alive.settle {j : Nat} {left : Bool} {o : Outcome} {rest : List Turn} (h : Alive m a)
    (hfocus : m.focus = none) (hready : m.ready = .settled j left o :: rest) :
    Alive (Machine.settle j left o { m with ready := rest }) a ∨ a = .side j left := by
  have hturn : ∀ t ∈ m.ready, t = .settled j left o ∨
      t ∈ (Machine.settle j left o { m with ready := rest }).ready := by
    intro t ht
    rw [hready] at ht
    rcases List.mem_cons.mp ht with rfl | ht
    · exact .inl rfl
    · exact .inr (mem_ready_settle (m := { m with ready := rest }) ht j left o)
  induction h with
  | running h =>
    rw [hfocus] at h
    cases h
  | queued h =>
    rcases hturn _ h with heq | h
    · cases heq
    · exact .inl (.queued h)
  | settling h =>
    rcases hturn _ h with heq | h
    · cases heq
      exact .inr rfl
    · exact .inl (.settling h)
  | @waiting i J hJ _ ih =>
    refine .inl ?_
    by_cases hij : i = j
    · subst hij
      rcases joins_settle (m := { m with ready := rest }) i left o hJ with
        ⟨hfirst, hjoin⟩ | ⟨q, hq⟩
      · refine .waiting (J := { J with first := some (left, o) }) hjoin fun left' hleft' => ?_
        refine (ih left' fun o' ho' => ?_).resolve_right ?_
        · rw [hfirst] at ho'
          cases ho'
        · rintro ⟨⟩
          exact hleft' o rfl
      · exact .queued hq
    · refine .waiting ((getElem?_joins_settle hij left o).trans hJ) fun left' hleft' => ?_
      refine (ih left' hleft').resolve_right ?_
      rintro ⟨⟩
      exact hij rfl

/-- A process takes its turn. -/
theorem Alive.resume {rest : List Turn} (h : Alive m a) (hfocus : m.focus = none)
    (hready : m.ready = .resume b p :: rest) :
    Alive { m with focus := some (b, p), ready := rest } a := by
  refine h.map (fun c q hc => ?_) (fun c q hc => ?_) (fun j left o hsettled => ?_)
    fun _ _ hJ => hJ
  · rw [hfocus] at hc
    cases hc
  · rw [hready] at hc
    rcases List.mem_cons.mp hc with heq | hc
    · cases heq
      exact .running rfl
    · exact .queued hc
  · rw [hready] at hsettled
    rcases List.mem_cons.mp hsettled with heq | hsettled
    · cases heq
    · exact .settling hsettled

/-- The only root of a machine has ended or goes on. -/
def Answered (m : Machine) : Prop :=
  (∃ o, m.roots = [some o]) ∨ (m.roots.length = 1 ∧ Alive m (.root 0))

theorem roots_settle (j : Nat) (left : Bool) (o : Outcome) (m : Machine) :
    (m.settle j left o).roots = m.roots := by
  unfold Machine.settle
  split
  · rfl
  · split <;> rfl

theorem roots_advance {b : Owner} (hp : Unshared p) (hend : ∀ i o, b = .root i → p ≠ ended o)
    (hb : ∀ task, b ≠ .shared task) : (m.advance b p).roots = m.roots := by
  have hfinish : ∀ o, p = ended o → (m.finish b o).roots = m.roots := by
    intro o hp
    cases b with
    | root i => exact absurd hp (hend i o rfl)
    | side j left => rfl
    | shared task => exact absurd rfl (hb task)
  cases p with
  | value v => exact hfinish (.ok v) rfl
  | raised f => exact hfinish (.error f) rfl
  | start q k => exact absurd rfl (hp.start q k)
  | await t k => exact absurd rfl (hp.await t k)
  | _ => rfl

theorem Answered.length_eq (h : Answered m) : m.roots.length = 1 := by
  rcases h with ⟨o, hroots⟩ | ⟨hlength, -⟩
  · rw [hroots]
    rfl
  · exact hlength

/-- A root that has not ended has not lost its turn. -/
theorem Answered.of_alive (h : Answered m) (hroots : m'.roots = m.roots)
    (halive : Alive m (.root 0) → Alive m' (.root 0)) : Answered m' := by
  rcases h with ⟨o, hended⟩ | ⟨hlength, h⟩
  · exact .inl ⟨o, hroots.trans hended⟩
  · exact .inr ⟨hroots ▸ hlength, halive h⟩

theorem Answered.take {t : Turn} {rest : List Turn} (h : Answered m) (hfocus : m.focus = none)
    (hready : m.ready = t :: rest) : Answered (Machine.take t { m with ready := rest }) := by
  cases t with
  | resume b p => exact h.of_alive rfl fun halive => halive.resume hfocus hready
  | settled j left o =>
    exact h.of_alive (roots_settle _ _ _ _) fun halive =>
      (halive.settle hfocus hready).resolve_right nofun

theorem Answered.advance {b : Owner} (h : Answered m) (hfocus : m.focus = some (b, p))
    (hp : Unshared p) (hroot : ∀ i, b = .root i → i = 0) (hshared : ∀ task, b ≠ .shared task) :
    Answered (m.advance b p) := by
  by_cases hend : ∃ i o, b = .root i ∧ p = ended o
  · obtain ⟨i, o, rfl, rfl⟩ := hend
    obtain rfl := hroot i rfl
    obtain ⟨r, hr⟩ := List.length_eq_one_iff.mp h.length_eq
    refine .inl ⟨o, ?_⟩
    have hroots : (m.finish (.root 0) o).roots = [some o] := by
      rw [Machine.finish, hr]
      rfl
    cases o <;> exact hroots
  · have hrunning : ∀ i o, b = .root i → p ≠ ended o := fun i o hi hp => hend ⟨i, o, hi, hp⟩
    exact h.of_alive (roots_advance hp hrunning hshared)
      fun halive => halive.advance hfocus hp hrunning hshared

theorem Answered.step (h : Answered m) (hcosts : Costs m costs c turns)
    (hstep : m.step = some m') : Answered m' := by
  rcases hfocus : m.focus with _ | ⟨b, p⟩
  · rw [Machine.step, hfocus] at hstep
    rcases hready : m.ready with _ | ⟨t, rest⟩ <;> rw [hready] at hstep
    · cases hstep
    · have htake := h.take hfocus hready
      cases t <;> cases hstep <;> simpa [Machine.take, focusOn, hfocus] using htake
  · rw [step_of_focus hfocus] at hstep
    cases hstep
    have hcost := hcosts.focus
    rw [hfocus] at hcost
    cases hcost with
    | running hb hp =>
      refine h.advance hfocus hp.unshared ?_ ?_
      · rintro i rfl
        exact hb
      · rintro task rfl
        exact hb

/-- When a machine of bounded processes has stopped, its root has ended. -/
theorem Answered.outcome (k : Nat) (h : Answered m) (hcosts : Costs m costs c turns)
    (hstep : (run k m).step = none) : ∃ o, (run k m).roots = [some o] := by
  induction k generalizing m costs turns c with
  | zero =>
    rcases h with hroots | ⟨-, halive⟩
    · exact hroots
    · exact absurd hstep halive.step_ne_none
  | succ k ih =>
    rcases hgo : m.step with _ | m'
    · rcases h with hroots | ⟨-, halive⟩
      · rwa [run, hgo]
      · exact absurd hgo halive.step_ne_none
    · rw [run_of_goes hgo] at hstep ⊢
      obtain ⟨costs', c', turns', hcosts', -⟩ := hcosts.step hgo
      exact ih (h.step hcosts hgo) hcosts' hstep

/-- A bounded process that runs alone comes to its end, and ends with an outcome. -/
theorem endsWith_of_bounded (hp : Bounded n p) (w : World) :
    ∃ w' f, EndsWith (ofRoots w [p]) w' f := by
  have hcosts : Costs (ofRoots w [p]) [] 0 [weight [] (.root 0) n + 1] :=
    ⟨.nil, .idle, .cons (.resume rfl hp) .nil⟩
  have hanswered : Answered (ofRoots w [p]) := .inr ⟨rfl, .queued (p := p) List.mem_cons_self⟩
  obtain ⟨k, hk⟩ := hcosts.stops
  obtain ⟨o, ho⟩ := hanswered.outcome k hcosts hk
  exact ⟨_, _, k, o, hk, rfl, ho, rfl⟩

end Machine
end UpdateDispatch
