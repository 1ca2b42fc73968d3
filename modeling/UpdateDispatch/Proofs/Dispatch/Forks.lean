import UpdateDispatch.Proofs.Dispatch.Sound

/-!
# Forks wait for both sides

A process that starts two sides goes on only when both have run to their ends, however the turns are
taken, and with the two ends (`Machine.Reachable.waits_for_both`). The argument follows the join:
while the process waits, the join knows of an end, or is about to be told of one, only if that side
has come to it (`Machine.Joining`).

A fork calls the rest of the chain first. If that call raises, the fork goes on with the fault and
never starts its branch; otherwise the rest and the branch are the two sides
(`Machine.fork_waits_for_both`).
-/

namespace UpdateDispatch

open Relation

namespace Machine

open Process

variable {m m' m₁ : Machine} {place : Owner → Place} {a b : Owner} {j : Nat} {left : Bool}
  {o : Outcome} {p q l r : Process} {k : Settled → Process}

/-! ## What a join is told -/

/-- A join knows of the end of a side, or there is a turn to tell it. -/
def Tells (m : Machine) (j : Nat) (left : Bool) (o : Outcome) : Prop :=
  .settled j left o ∈ m.ready ∨ ∃ J, m.joins[j]? = some J ∧ J.first = some (left, o)

theorem Tells.of_joins (h : Tells m' j left o) (hjoins : m'.joins = m.joins)
    (hready : .settled j left o ∈ m'.ready → .settled j left o ∈ m.ready) : Tells m j left o := by
  rcases h with hturn | hknown
  · exact .inl (hready hturn)
  · exact .inr (hjoins ▸ hknown)

theorem tells_finish {o' : Outcome} (h : Tells (m.finish b o') j left o) :
    Tells m j left o ∨ (b = .side j left ∧ o' = o) := by
  cases b with
  | root index => exact .inl (h.of_joins rfl id)
  | shared task => exact .inl (h.of_joins rfl (by simp [finish]))
  | side i left' =>
    by_cases heq : Turn.settled j left o = .settled i left' o'
    · cases heq
      exact .inr ⟨rfl, rfl⟩
    · exact .inl (h.of_joins rfl (by simp [finish, queue, idle, heq]))

theorem tells_advance {c : Owner} (hawait : ∀ t k, p ≠ .await t k)
    (h : Tells (m.advance c p) j left o) : Tells m j left o ∨ (c = .side j left ∧ Ended p o) := by
  cases p with
  | value v =>
    refine (tells_finish h).imp_right ?_
    rintro ⟨rfl, rfl⟩
    exact ⟨rfl, .value v⟩
  | raised f =>
    refine (tells_finish h).imp_right ?_
    rintro ⟨rfl, rfl⟩
    exact ⟨rfl, .raised f⟩
  | await t k => exact absurd rfl (hawait t k)
  | pause p => exact .inl (h.of_joins rfl (by simp [Machine.advance, queue, idle]))
  | start p k => exact .inl (h.of_joins rfl (by simp [Machine.advance]))
  | both l r k =>
    rcases h with hturn | ⟨J, hJ, hfirst⟩
    · exact .inl (.inl (by simpa [Machine.advance, idle] using hturn))
    · rcases getElem?_joins_split (l := l) (r := r) hJ with hJ | ⟨-, rfl⟩
      · exact .inl (.inr ⟨J, hJ, hfirst⟩)
      · cases hfirst
  | _ => exact .inl (h.of_joins rfl id)

theorem tells_take {t : Turn} {rest : List Turn} (ht : t ∈ m.ready) (hrest : rest ⊆ m.ready)
    (h : Tells (take t { m with ready := rest }) j left o) : Tells m j left o := by
  cases t with
  | resume c p => exact h.of_joins rfl fun hturn => hrest hturn
  | settled i left' o' =>
    simp only [take, settle] at h
    split at h
    · exact h.of_joins rfl fun hturn => hrest hturn
    · next J hJ =>
      split at h
      · rcases h with hturn | ⟨J', hJ', hfirst⟩
        · exact .inl (hrest hturn)
        · obtain ⟨I, hI, -, -, ⟨rfl, hnew⟩ | ⟨-, hold⟩⟩ := getElem?_joins_set hJ hJ'
          · rw [hnew] at hfirst
            cases hfirst
            exact .inl ht
          · exact .inr ⟨I, hI, hold ▸ hfirst⟩
      · refine h.of_joins rfl fun hturn => hrest ?_
        simpa [queue] using hturn

/-- What a join is told are ends that sides have come to. -/
theorem Next.tells (hnext : Next m m') (hawait : ∀ c t k, m.focus ≠ some (c, .await t k))
    (h : Tells m' j left o) :
    Tells m j left o ∨ ∃ p, m.focus = some (.side j left, p) ∧ Ended p o := by
  cases hnext with
  | @advance c p hfocus =>
    refine (tells_advance (fun t k hp => hawait c t k (hp ▸ hfocus)) h).imp_right ?_
    rintro ⟨rfl, hended⟩
    exact ⟨p, hfocus, hended⟩
  | @turn before after t hfocus hready =>
    have hperm : m.ready.Perm (t :: (before ++ after)) := hready ▸ List.perm_middle
    exact .inl (tells_take (hperm.mem_iff.mpr List.mem_cons_self)
      (fun u hu => hperm.mem_iff.mpr (List.mem_cons_of_mem t hu)) h)

/-! ## Waiting for both sides -/

/-- An owner has come to an end in the run between two states. -/
def HasEnded (m m' : Machine) (b : Owner) (o : Outcome) : Prop :=
  ∃ e p, ReflTransGen Next m e ∧ ReflTransGen Next e m' ∧ e.focus = some (b, p) ∧ Ended p o

theorem HasEnded.next (h : HasEnded m m' b o) (hnext : Next m' m'') : HasEnded m m'' b o := by
  obtain ⟨e, p, he, hlater, hp⟩ := h
  exact ⟨e, p, he, hlater.tail hnext, hp⟩

/-- The owner `a` waits at the join `j`, and what the join is told has happened since `m₁`. -/
structure Joining (m₁ : Machine) (j : Nat) (a : Owner) (k : Settled → Process) (m : Machine)
    (place : Owner → Place) : Prop where
  uniform : Uniform Trait.trusted m place
  waiting : place a = .waiting j
  join : ∃ J, m.joins[j]? = some J ∧ J.owner = a ∧ J.next = k
  told : ∀ left o, Tells m j left o → HasEnded m₁ m (.side j left) o

/-- A step of a run in which `a` waits: it goes on waiting, or both sides have ended and it has a
turn to go on. -/
theorem Joining.next (h : Joining m₁ j a k m place) (hrun : ReflTransGen Next m₁ m)
    (hnext : Next m m') : (∃ place', Joining m₁ j a k m' place') ∨
      ∃ s : Settled, .resume a (k s) ∈ m'.ready ∧ HasEnded m₁ m' (.side j true) s.left ∧
        HasEnded m₁ m' (.side j false) s.right := by
  obtain ⟨place', huniform, hfollows⟩ := Uniform.next h.uniform (Trait.upheld_sound _) hnext
  obtain ⟨J, hJ, rfl, rfl⟩ := h.join
  have hawait : ∀ c t k, m.focus ≠ some (c, .await t k) := by
    intro c t k hfocus
    obtain ⟨A, -, hsound⟩ := (h.uniform.obeys c).focus hfocus
    exact hsound
  rcases hfollows.waits h.waiting with hwaiting | hresumes
  · obtain ⟨J', hJ', howner, hnextJ⟩ := hnext.joins hJ
    refine .inl ⟨place', huniform, hwaiting, ⟨J', hJ', howner, hnextJ⟩, fun left o htells => ?_⟩
    rcases hnext.tells hawait htells with hold | ⟨p, hfocus, hp⟩
    · exact (h.told left o hold).next hnext
    · exact ⟨m, p, hrun, .single hnext, hfocus, hp⟩
  · cases hresumes with
    | @mk J' left o o' hJ' _ hturn hfirst hqueued =>
      rw [hJ] at hJ'
      cases hJ'
      have hlast := (h.told _ _ (.inl hturn)).next hnext
      have hother := (h.told _ _ (.inr ⟨J, hJ, hfirst⟩)).next hnext
      cases left with
      | true => exact .inr ⟨_, hqueued, hlast, hother⟩
      | false => exact .inr ⟨_, hqueued, hother, hlast⟩

theorem Joining.of_reaches (h : Joining m₁ j a k m₁ place) (hrun : ReflTransGen Next m₁ m) :
    (∃ place', Joining m₁ j a k m place') ∨
      ∃ m₂, ∃ s : Settled, ReflTransGen Next m₁ m₂ ∧ ReflTransGen Next m₂ m ∧
        .resume a (k s) ∈ m₂.ready ∧ HasEnded m₁ m₂ (.side j true) s.left ∧
        HasEnded m₁ m₂ (.side j false) s.right := by
  induction hrun with
  | refl => exact .inl ⟨place, h⟩
  | tail hrun hnext ih =>
    rcases ih with ⟨place', ih⟩ | ⟨m₂, s, hrun₂, hlater, hends⟩
    · refine (ih.next hrun hnext).imp id ?_
      rintro ⟨s, hends⟩
      exact ⟨_, s, hrun.tail hnext, .refl, hends⟩
    · exact .inr ⟨m₂, s, hrun₂, hlater.tail hnext, hends⟩

/-- Where two sides have just been started, nothing is known of their ends. -/
theorem joining_split (hm : Reachable m) (hfocus : m.focus = some (a, .both l r k)) :
    ∃ place, Joining (m.split a l r k) m.joins.length a k (m.split a l r k) place := by
  have hsplit : Reachable (m.split a l r k) :=
    hm.of_reaches (.single (.advance hfocus))
  obtain ⟨place, huniform⟩ := hm.uniform
  obtain ⟨place', huniform'⟩ := hsplit.uniform
  have hjoin : (m.split a l r k).joins[m.joins.length]? = some { owner := a, next := k } := by
    simp [split, idle]
  have hqueued : place' (.side m.joins.length true) = .queued :=
    huniform'.placed.queued (t := .resume (.side m.joins.length true) l) (by simp [split])
  refine ⟨place', huniform', ?_, ⟨_, hjoin, rfl, rfl⟩, fun left o htells => ?_⟩
  · exact huniform'.placed.waiting hjoin (by rw [hqueued]; simp)
  · rcases htells with hturn | ⟨J, hJ, hfirst⟩
    · have hturn : Turn.settled m.joins.length left o ∈ m.ready := by
        simpa [split, idle] using hturn
      have hplace : place (.side m.joins.length left) = .queued := huniform.placed.queued hturn
      rw [huniform.placed.unborn (Nat.le_refl _)] at hplace
      cases hplace
    · rw [hjoin] at hJ
      cases hJ
      cases hfirst

/-- The process of an owner had a turn in `m`, and by `m'` it has run to the end `o`. -/
structure RanToEnd (m m' : Machine) (b : Owner) (p : Process) (o : Outcome) : Prop where
  queued : .resume b p ∈ m.ready
  ended : ∃ e q, ReflTransGen Next m e ∧ ReflTransGen Next e m' ∧ e.focus = some (b, q) ∧
    Leads p q ∧ Ended q o

theorem HasEnded.ranToEnd (h : HasEnded m m₁ b o) (hm : Reachable m)
    (hturn : .resume b p ∈ m.ready) (hlater : ReflTransGen Next m₁ m') :
    RanToEnd m m' b p o := by
  obtain ⟨e, q, he, hend, hfocus, hq⟩ := h
  exact ⟨hturn, e, q, he, hend.trans hlater, hfocus, hm.leads (.inr hturn) he hfocus, hq⟩

/-- A process that starts two sides gives both a turn at once, and it goes on only after both have
run to their ends. -/
theorem Reachable.waits_for_both (hm : Reachable m) (hfocus : m.focus = some (a, .both l r k))
    (hrun : TransGen Next m m') (hq : m'.focus = some (a, q)) :
    ∃ s : Settled, Leads (k s) q ∧
      RanToEnd (m.split a l r k) m' (.side m.joins.length true) l s.left ∧
      RanToEnd (m.split a l r k) m' (.side m.joins.length false) r s.right := by
  have hsplit : Reachable (m.split a l r k) := hm.of_reaches (.single (.advance hfocus))
  obtain ⟨m₁, hnext, hrun⟩ := TransGen.head'_iff.mp hrun
  obtain rfl : m₁ = m.split a l r k := hnext.eq_advance hfocus
  obtain ⟨place, hjoining⟩ := joining_split hm hfocus
  rcases hjoining.of_reaches hrun with ⟨place', hjoining⟩ | ⟨m₂, s, hrun₂, hlater, hturn, hl, hr⟩
  · have hrunning := hjoining.uniform.placed.running hq
    rw [hjoining.waiting] at hrunning
    cases hrunning
  · exact ⟨s, (hsplit.of_reaches hrun₂).leads (.inr hturn) hlater hq,
      hl.ranToEnd hsplit (by simp [split]) hlater, hr.ranToEnd hsplit (by simp [split]) hlater⟩

/-! ## Forks -/

/-- How a fork goes on when the call of the rest of the chain is over. -/
def forked (side x : Nat) : Reply → Process
  | .raised f => raised f
  | .value v => both (value v) (dispatch side x leaf) joined
  | .awaitable rest => both rest (dispatch side x leaf) joined

theorem fork_eq_onCall (side x : Nat) (next : Process) :
    Process.fork side x next = next.onCall (forked side x) := by
  unfold Process.fork
  congr 1

/-- The call of a process gives something to run, which is a value if there is nothing to await. -/
inductive CallGives (p : Process) : Process → Prop
  | value {v : Json} (h : Leads p (.value v)) : CallGives p (.value v)
  | awaitable {rest : Process} (h : Leads p (.deferred rest)) : CallGives p rest

/-- Wherever a fork is reached: the call of the rest of the chain goes on, or it has raised and the
fork went on with that fault, or the rest and the branch both got a turn and the fork went on only
after both had run to their ends. -/
theorem fork_waits_for_both (hm : Reachable m) {K : Process → Process} (hK : Surrounds K)
    {side x : Nat} {next : Process} (hfocus : m.focus = some (a, K (Process.fork side x next)))
    (hrun : ReflTransGen Next m m') (hq : m'.focus = some (a, q)) :
    (∃ p, Leads next p ∧ q = K (p.onCall (forked side x))) ∨
    (∃ s f, ReflTransGen Next m s ∧ TransGen Next s m' ∧ Leads next (raised f) ∧
      s.focus = some (a, K (raised f)) ∧ Leads (K (raised f)) q) ∨
    ∃ s rest, ReflTransGen Next m s ∧ TransGen Next s m' ∧ CallGives next rest ∧
      s.focus = some (a, both rest (dispatch side x leaf) fun ends => K (joined ends)) ∧
      ∃ ends : Settled, Leads (K (joined ends)) q ∧
        RanToEnd (s.split a rest (dispatch side x leaf) fun ends => K (joined ends)) m'
          (.side s.joins.length true) rest ends.left ∧
        RanToEnd (s.split a rest (dispatch side x leaf) fun ends => K (joined ends)) m'
          (.side s.joins.length false) (dispatch side x leaf) ends.right := by
  obtain ⟨place, huniform⟩ := hm.uniform
  have hrunning : place a = .running := huniform.placed.running hfocus
  rw [fork_eq_onCall] at hfocus
  have hobeys :
      Obeys (Trait.trusted.Along (fun p => K (p.onCall (forked side x))) next) m place a :=
    huniform.placed.obeys_of_focus hfocus ⟨(huniform.obeys a).focus hfocus, next, rfl, .refl⟩
  rcases huniform.along (Trait.upheld_sound _) (hK.encloses_call (forked side x))
    (by rw [hrunning]; exact nofun) hobeys hrun hq with
    ⟨p, rfl, hleads⟩ | ⟨s, p, hs, hp, hleads, hstop, hlater⟩
  · exact .inl ⟨p, hleads, rfl⟩
  have hreach : Reachable s := hm.of_reaches hs
  cases hstop with
  | raised f =>
    exact .inr (.inl ⟨s, f, hs, hlater, hleads, hp,
      hreach.leads (.inl hp) hlater.to_reflTransGen hq⟩)
  | value v =>
    have hboth := hp.trans (congrArg (fun q => some (a, q)) (hK.both _ _ _))
    exact .inr (.inr ⟨s, _, hs, hlater, .value hleads, hboth,
      hreach.waits_for_both hboth hlater hq⟩)
  | deferred rest =>
    have hboth := hp.trans (congrArg (fun q => some (a, q)) (hK.both _ _ _))
    exact .inr (.inr ⟨s, _, hs, hlater, .awaitable hleads, hboth,
      hreach.waits_for_both hboth hlater hq⟩)

theorem leads_leaf {p : Process} (h : Leads leaf p) : p = leaf ∨ p = done := by
  rcases ReflTransGen.cases_head h with rfl | ⟨q, hstep, h⟩
  · exact .inl rfl
  · cases hstep with
    | runs hruns =>
      cases hruns
      rcases ReflTransGen.cases_head h with rfl | ⟨q, hstep, -⟩
      · exact .inr rfl
      · cases hstep with
        | runs hruns => cases hruns

/-- A script that notes a value. -/
def noting (v : Json) : Link := .script { actions := [.note v], plain := false }

/-- A composer with a forked branch that notes a value. -/
def forkWorld : World :=
  (Build.outcome (do Build.fork (← Build.composerOf []) [.link (noting (.str "branch"))])
    { client := none, me := default, contexts := [default] }).2

/-- At the end of a chain, the branch and the rest of the chain both run to their ends. -/
theorem fork_waits_for_both_at_end : ∃ K rest, ∃ s : Machine, ∃ ends : Settled,
    CallGives leaf rest ∧
    RanToEnd (s.split (.root 0) rest (dispatch 1 0 leaf) K) (run 20 (started forkWorld 0))
      (.side s.joins.length true) rest ends.left ∧
    RanToEnd (s.split (.root 0) rest (dispatch 1 0 leaf) K) (run 20 (started forkWorld 0))
      (.side s.joins.length false) (dispatch 1 0 leaf) ends.right := by
  obtain ⟨k, hfocus⟩ : ∃ k, (run 8 (started forkWorld 0)).focus =
      some (.root 0, (Process.fork 1 0 leaf).andThen k) := ⟨_, rfl⟩
  have hrun : ReflTransGen Next (run 8 (started forkWorld 0)) (run 20 (started forkWorld 0)) :=
    reaches_run 12 (run 8 (started forkWorld 0))
  have hq : (run 20 (started forkWorld 0)).focus = some (.root 0, value .null) := rfl
  rcases fork_waits_for_both (reachable_run_started forkWorld 0 8) (.andThen k .hole) hfocus hrun hq
    with ⟨p, hp, hcall⟩ | ⟨s, f, -, -, hraised, -⟩ | ⟨s, rest, -, -, hgives, -, ends, -, hl, hr⟩
  · rcases leads_leaf hp with rfl | rfl <;> cases hcall
  · rcases leads_leaf hraised with heq | heq <;> cases heq
  · exact ⟨_, rest, s, ends, hgives, hl, hr⟩

/-- A composer with a fork, and after it a plain function that raises at once. -/
def raisingWorld : World :=
  (Build.outcome
    (do
      let forking ← Build.composerOf []
      let _ ← Build.fork forking [.link (noting (.str "branch"))]
      Build.composerOf [.composer forking,
        .link (.script { actions := [.throw { kind := .plain .value, value := .str "boom" }]
                         plain := true })])
    { client := none, me := default, contexts := [default] }).2

/-- When the call of the rest raises, all is over and the branch has noted nothing. -/
theorem fork_branch_is_not_started :
    (run 30 (started raisingWorld 3)).step.isNone ∧
      (run 30 (started raisingWorld 3)).roots =
        [some (.error (.raised .value (.str "boom")))] ∧
      (run 30 (started raisingWorld 3)).world.events = [] :=
  ⟨rfl, rfl, rfl⟩

end Machine
end UpdateDispatch
