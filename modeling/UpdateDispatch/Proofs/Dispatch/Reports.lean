import UpdateDispatch.Proofs.Dispatch.Forks
import UpdateDispatch.Proofs.Dispatch.Timelines

/-!
# What joins hear of, and when

On a timeline the ends of the two sides of a join have an order: `endings` lists those that have
come to pass, one after the other. While a process waits for the two, this list is what the join
knows and what the queue is about to tell it (`Expecting.heard`). So the side that the join knows of
when it is told of the other one is the side that ended first, and the process goes on with the ends
in their order (`stage_of_split`, `Stage.resumed_of_focus`).

If every turn is taken, it does go on when both sides have ended (`Fair.runs_again`): one of the two
is still to be told to the join, and when it is, the join knows of the other one.
-/

namespace UpdateDispatch

open Relation

namespace Machine

open Process

variable {m m' : Machine} {place place' : Owner → Place} {a b : Owner} {p q l r : Process}
  {o o' first second : Outcome} {σ : Nat → Machine} {i j n t : Nat} {left : Bool}
  {k : Settled → Process} {J : Join}

/-! ## Ends -/

/-- The process of an owner runs, and it is at its end. -/
def Halts (m : Machine) (b : Owner) (o : Outcome) : Prop :=
  ∃ p, m.focus = some (b, p) ∧ Ended p o

/-- What a turn tells the join `j`. -/
def endTold (j : Nat) : Turn → Option (Bool × Outcome)
  | .resume _ _ => none
  | .settled i left o => if i = j then some (left, o) else none

/-- What the join `j` knows of the ends of its sides, and then what it is about to be told. -/
def reports (j : Nat) (m : Machine) : List (Bool × Outcome) :=
  ((m.joins[j]?).bind Join.first).toList ++ m.ready.filterMap (endTold j)

/-- The end that a side of the join `j` comes to. -/
def ending (j : Nat) (m : Machine) : Option (Bool × Outcome) :=
  match m.focus with
  | some (.side i left, .value v) => endTold j (.settled i left (.ok v))
  | some (.side i left, .raised f) => endTold j (.settled i left (.error f))
  | _ => none

/-- The ends that the sides of the join `j` have come to before the moment `n`. -/
def endings (σ : Nat → Machine) (j : Nat) : Nat → List (Bool × Outcome)
  | 0 => []
  | n + 1 => endings σ j n ++ (ending j (σ n)).toList

@[simp] theorem endTold_resume : endTold j (.resume b p) = none := rfl

@[simp] theorem endTold_settled : endTold j (.settled j left o) = some (left, o) := if_pos rfl

theorem endTold_eq_some_iff {u : Turn} :
    endTold j u = some (left, o) ↔ u = .settled j left o := by
  cases u with
  | resume b p => simp
  | settled i left' o' =>
    simp only [endTold]
    split <;> simp_all

theorem filterMap_endTold_eq_nil {turns : List Turn} (h : ∀ left o, .settled j left o ∉ turns) :
    turns.filterMap (endTold j) = [] := by
  rw [List.filterMap_eq_nil_iff]
  intro u hu
  rcases hreport : endTold j u with _ | ⟨left, o⟩
  · rfl
  · rw [endTold_eq_some_iff.mp hreport] at hu
    exact absurd hu (h left o)

theorem ending_eq_some_iff : ending j m = some (left, o) ↔ Halts m (.side j left) o := by
  constructor
  · intro h
    unfold ending at h
    split at h
    · next i left' v hfocus =>
      cases endTold_eq_some_iff.mp h
      exact ⟨_, hfocus, .value v⟩
    · next i left' f hfocus =>
      cases endTold_eq_some_iff.mp h
      exact ⟨_, hfocus, .raised f⟩
    · cases h
  · rintro ⟨p, hfocus, hended⟩
    cases hended <;> simp [ending, hfocus]

theorem ending_of_idle (hidle : m.focus = none) : ending j m = none := by rw [ending, hidle]

/-! ## What a join hears of -/

/-- A join that is new has heard of nothing. -/
theorem reports_split (hm : Reachable m) (a : Owner) (l r : Process) (k : Settled → Process) :
    reports m.joins.length (m.split a l r k) = [] := by
  obtain ⟨place, huniform⟩ := hm.uniform
  have hready : m.ready.filterMap (endTold m.joins.length) = [] :=
    filterMap_endTold_eq_nil fun left o hu => huniform.placed.ne_new_of_queued hu left rfl
  simp [reports, split, idle, hready]

theorem reports_finish (hfocus : m.focus = some (a, p)) (hended : Ended p o)
    (halone : m.tasks = []) :
    reports j (m.finish a o) = reports j m ++ (ending j m).toList := by
  cases a with
  | root i => cases hended <;> simp [reports, ending, hfocus, finish, idle]
  | side i left =>
    have hone : ∀ u, [u].filterMap (endTold j) = (endTold j u).toList := fun u => by
      rcases hu : endTold j u <;> simp [hu]
    cases hended <;> simp [reports, ending, hfocus, finish, idle, queue, hone]
  | shared t => cases hended <;> simp [reports, ending, hfocus, finish, idle, halone]

/-- While the running process goes on, a join hears of nothing but its end. -/
theorem reports_advance (hfocus : m.focus = some (a, p)) (hawait : ∀ t k, p ≠ .await t k)
    (halone : m.tasks = []) (hj : j < m.joins.length) :
    reports j (m.advance a p) = reports j m ++ (ending j m).toList := by
  cases p with
  | value v => exact reports_finish hfocus (.value v) halone
  | raised f => exact reports_finish hfocus (.raised f) halone
  | pause p => simp [reports, ending, hfocus, advance, queue, idle]
  | both l r k => simp [reports, ending, hfocus, advance, idle, List.getElem?_append_left hj]
  | start p k => simp [reports, ending, hfocus, advance]
  | await t k => exact absurd rfl (hawait t k)
  | _ => simp [reports, ending, hfocus, advance, focusOn]

/-- What a join is told when it knows of no side was the first thing it was to be told. -/
theorem reports_settle_first {before after : List Turn}
    (hready : m.ready = before ++ .settled j left o :: after) (hJ : m.joins[j]? = some J)
    (hnone : J.first = none) (hfirst : ∀ left' o', .settled j left' o' ∉ before) :
    reports j m = (left, o) :: (before ++ after).filterMap (endTold j) := by
  simp [reports, hready, hJ, hnone, filterMap_endTold_eq_nil hfirst]

/-- When a turn is taken, a join hears of nothing new, unless it is told of its second side. -/
theorem Takes.reports_eq {u : Turn} (h : Takes u m m') (hJ : m.joins[j]? = some J)
    (hfirst : ∀ left o, u = .settled j left o → J.first = none) : reports j m' = reports j m := by
  cases h with
  | @mk before after hfocus hready hbefore =>
    cases u with
    | resume b p => simp [reports, take, focusOn, hready, List.filterMap_cons]
    | settled i left o =>
      by_cases hij : i = j
      · subst hij
        have hnone := hfirst left o rfl
        rw [reports_settle_first hready hJ hnone fun left' o' => hbefore i left o rfl left' o']
        obtain ⟨hlt, -⟩ := List.getElem?_eq_some_iff.mp hJ
        simp only [take, settle, hJ, hnone]
        simp [reports, hlt]
      · have hnews : (before ++ .settled i left o :: after).filterMap (endTold j) =
            (before ++ after).filterMap (endTold j) := by
          simp [endTold, hij]
        simp only [take, settle, reports, hready, hnews]
        split
        · rfl
        · split
          · simp [List.getElem?_set_ne hij]
          · simp [queue]

/-- A join that is told of its second side resumes who waits for it. -/
theorem Takes.resume (h : Takes (.settled j left o) m m') (hJ : m.joins[j]? = some J) {left' : Bool}
    (hfirst : J.first = some (left', o')) :
    .resume J.owner (J.next (pair left' o' o)) ∈ m'.ready := by
  cases h with
  | mk => simp [take, settle, hJ, hfirst, queue]

/-- A join that is told of a side and has heard of another one before resumes who waits for it. -/
theorem Takes.resumes_of_heard {x : Bool × Outcome} {rest : List (Bool × Outcome)}
    (h : Takes (.settled j left o) m m') (hJ : m.joins[j]? = some J)
    (hreports : reports j m = x :: rest) (hne : (left, o) ≠ x) :
    ∃ s, .resume J.owner (J.next s) ∈ m'.ready := by
  rcases hfirst : J.first with _ | ⟨left', o'⟩
  · cases h with
    | mk hfocus hready hbefore =>
      rw [reports_settle_first hready hJ hfirst (hbefore j left o rfl)] at hreports
      injection hreports with hhead
      exact absurd hhead hne
  · exact ⟨_, h.resume hJ hfirst⟩

theorem mem_endings {x : Bool × Outcome} :
    x ∈ endings σ j n ↔ ∃ t < n, ending j (σ t) = some x := by
  induction n with
  | zero => simp [endings]
  | succ n ih =>
    rw [endings, List.mem_append, ih, Option.mem_toList]
    constructor
    · rintro (⟨t, ht, hending⟩ | hending)
      · exact ⟨t, Nat.lt_succ_of_lt ht, hending⟩
      · exact ⟨n, Nat.lt_succ_self n, hending⟩
    · rintro ⟨t, ht, hending⟩
      rcases Nat.lt_succ_iff_lt_or_eq.mp ht with ht | rfl
      · exact .inl ⟨t, ht, hending⟩
      · exact .inr hending

/-- What comes later in the list of ends has come to pass later. -/
theorem exists_lt_of_endings {x y : Bool × Outcome} {rest : List (Bool × Outcome)}
    (h : endings σ j n = x :: rest) (hy : y ∈ rest) :
    ∃ t₁ t₂, t₁ < t₂ ∧ t₂ < n ∧ ending j (σ t₁) = some x ∧ ending j (σ t₂) = some y := by
  induction n generalizing rest with
  | zero => cases h
  | succ n ih =>
    rw [endings] at h
    rcases hn : endings σ j n with _ | ⟨z, zs⟩
    · rw [hn] at h
      rcases hending : ending j (σ n) with _ | z
      · simp [hending] at h
      · simp only [hending, Option.toList_some, List.nil_append, List.cons.injEq] at h
        simp [← h.2] at hy
    · rw [hn, List.cons_append, List.cons.injEq] at h
      obtain ⟨rfl, rfl⟩ := h
      rcases List.mem_append.mp hy with hy | hy
      · obtain ⟨t₁, t₂, hlt, ht₂, hends⟩ := ih hn hy
        exact ⟨t₁, t₂, hlt, Nat.lt_succ_of_lt ht₂, hends⟩
      · obtain ⟨t₁, ht₁, hending⟩ := mem_endings.mp (hn ▸ List.mem_cons_self)
        exact ⟨t₁, n, ht₁, Nat.lt_succ_self n, hending, Option.mem_toList.mp hy⟩

/-! ## Sides that are over -/

/-- At the moment `t` the process of `b` comes to its end, and it does not run any more. -/
structure Finishes (σ : Nat → Machine) (t : Nat) (b : Owner) (o : Outcome) : Prop where
  halts : Halts (σ t) b o
  forGood : ∀ n, t < n → ∀ p, (σ n).focus ≠ some (b, p)

theorem Halts.unique (h : Halts m b o) (h' : Halts m b o') : o = o' := by
  obtain ⟨p, hfocus, hended⟩ := h
  obtain ⟨p', hfocus', hended'⟩ := h'
  rw [hfocus] at hfocus'
  cases hfocus'
  cases hended <;> cases hended' <;> rfl

/-- A process comes to its end once. -/
theorem Finishes.unique {t' : Nat} (h : Finishes σ t b o) (h' : Finishes σ t' b o') :
    t = t' ∧ o = o' := by
  obtain ⟨p, hfocus, -⟩ := h.halts
  obtain ⟨p', hfocus', -⟩ := h'.halts
  rcases Nat.lt_trichotomy t t' with hlt | rfl | hlt
  · exact absurd hfocus' (h.forGood t' hlt p')
  · exact ⟨rfl, h.halts.unique h'.halts⟩
  · exact absurd hfocus (h'.forGood t hlt p)

/-- An owner has no process to go on with. -/
structure Spent (m : Machine) (place : Owner → Place) (b : Owner) : Prop where
  focus : ∀ p, m.focus ≠ some (b, p)
  rests : ∀ p, ¬ Rests m place b p

theorem Follows.spent (h : Follows m place m' place') (hb : Spent m place b)
    (hborn : ∀ left, b ≠ .side m.joins.length left) : Spent m' place' b where
  focus q hfocus := by
    rcases h.focus hfocus with ⟨p, hp, -⟩ | ⟨-, hturn, -⟩
    · exact hb.focus p hp
    · exact hb.rests q (.ready hturn)
  rests q hrests := by
    rcases h.rests hrests with hold | ⟨c, p, hp, hparks⟩
    · exact hb.rests q hold
    · cases hparks with
      | pause | join s => exact hb.focus _ hp
      | left | right => exact hborn _ rfl

theorem Follows.spent_of_halts (h : Follows m place m' place') (hplaced : Placed m place)
    (hhalts : Halts m b o) (hnext : Next m m') : Spent m' place' b := by
  obtain ⟨p, hfocus, hended⟩ := hhalts
  refine ⟨fun q hq => ?_, fun q hrests => ?_⟩
  · rw [hnext.eq_advance hfocus] at hq
    cases hended <;> cases b <;> cases hq
  · rcases h.rests hrests with hold | ⟨c, p', hp', hparks⟩
    · exact hplaced.not_rests_of_running hfocus hold
    · rw [hfocus] at hp'
      cases hp'
      cases hended <;> cases hparks

theorem Timeline.spent (hσ : Timeline σ) (hm : Reachable (σ 0))
    (hhalts : Halts (σ t) (.side j left) o) (hlt : t < n) :
    ∃ place, Uniform Trait.trusted (σ n) place ∧ Spent (σ n) place (.side j left) ∧
      j < (σ n).joins.length := by
  induction n, hlt using Nat.le_induction with
  | base =>
    obtain ⟨place, huniform⟩ := (hm.of_reaches (hσ.reaches (Nat.zero_le t))).uniform
    have hnext : Next (σ t) (σ (t + 1)) := by
      obtain ⟨p, hfocus, -⟩ := hhalts
      rw [hσ.advance hfocus]
      exact .advance hfocus
    obtain ⟨place', huniform', hfollows⟩ := huniform.next (Trait.upheld_sound _) hnext
    refine ⟨place', huniform', hfollows.spent_of_halts huniform.placed hhalts hnext, ?_⟩
    obtain ⟨p, hfocus, -⟩ := hhalts
    have hrunning : place (.side j left) ≠ .gone := by
      rw [huniform.placed.running hfocus]
      nofun
    exact Nat.lt_of_lt_of_le (huniform.placed.born hrunning rfl) hnext.joins_le
  | succ n _ ih =>
    obtain ⟨place, huniform, hspent, hborn⟩ := ih
    rcases hσ n with hstep | ⟨-, heq⟩
    · obtain ⟨place', huniform', hfollows⟩ :=
        huniform.next (Trait.upheld_sound _) hstep.next
      refine ⟨place', huniform', hfollows.spent hspent fun left' heq => ?_,
        Nat.lt_of_lt_of_le hborn hstep.next.joins_le⟩
      cases heq
      exact Nat.lt_irrefl _ hborn
    · exact heq ▸ ⟨place, huniform, hspent, hborn⟩

/-- Who has come to an end has done so for good. -/
theorem Timeline.finishes (hσ : Timeline σ) (hm : Reachable (σ 0))
    (hhalts : Halts (σ t) (.side j left) o) : Finishes σ t (.side j left) o where
  halts := hhalts
  forGood n hlt p := by
    obtain ⟨place, -, hspent, -⟩ := hσ.spent hm hhalts hlt
    exact hspent.focus p

/-! ## Waiting for two sides -/

/-- The sides of the join `j` come to their ends before the moment `n`, the side `left` first. -/
def HaltInTurn (σ : Nat → Machine) (j : Nat) (left : Bool) (first second : Outcome) (n : Nat) :
    Prop :=
  ∃ t₁ t₂, t₁ < t₂ ∧ t₂ < n ∧ Halts (σ t₁) (.side j left) first ∧
    Halts (σ t₂) (.side j !left) second

theorem HaltInTurn.mono (h : HaltInTurn σ j left first second n) (hle : n ≤ i) :
    HaltInTurn σ j left first second i := by
  obtain ⟨t₁, t₂, hlt, ht₂, hends⟩ := h
  exact ⟨t₁, t₂, hlt, Nat.lt_of_lt_of_le ht₂ hle, hends⟩

/-- The owner `a` waits at the join `j`, which hears of the ends of its sides in the order in which
they come to pass. -/
structure Expecting (σ : Nat → Machine) (j : Nat) (a : Owner) (k : Settled → Process) (n : Nat)
    (place : Owner → Place) : Prop where
  uniform : Uniform Trait.trusted (σ n) place
  waiting : place a = .waiting j
  join : ∃ J, (σ n).joins[j]? = some J ∧ J.owner = a ∧ J.next = k
  heard : reports j (σ n) = endings σ j n

/-- The process of `a` has a turn to go on with the ends of its two sides, in their order. -/
def Resuming (σ : Nat → Machine) (j : Nat) (a : Owner) (k : Settled → Process) (n : Nat) : Prop :=
  ∃ left first second, HaltInTurn σ j left first second n ∧
    .resume a (k (pair left first second)) ∈ (σ n).ready

theorem Expecting.reports_next (h : Expecting σ j a k n place) (hstep : Punctual (σ n) (σ (n + 1)))
    (hplaced : Placed (σ (n + 1)) place') (hwaiting : place' a = .waiting j) :
    reports j (σ (n + 1)) = endings σ j (n + 1) := by
  obtain ⟨J, hJ, rfl, -⟩ := h.join
  rw [endings, ← h.heard]
  generalize σ (n + 1) = m' at hstep hplaced
  cases hstep with
  | @advance c p hfocus =>
    refine reports_advance hfocus (fun t k hp => ?_) h.uniform.placed.alone
      (List.getElem?_eq_some_iff.mp hJ).1
    obtain ⟨A, -, hsound⟩ := (h.uniform.obeys c).focus (hp ▸ hfocus)
    exact hsound
  | @turn u _ htakes =>
    rw [ending_of_idle htakes.idle, Option.toList_none, List.append_nil]
    refine htakes.reports_eq hJ ?_
    rintro left o rfl
    -- if the join knew of a side, its owner would have a turn now
    by_contra hfirst
    obtain ⟨⟨left', o'⟩, hfirst⟩ := Option.ne_none_iff_exists'.mp hfirst
    have hqueued := hplaced.queued (htakes.resume hJ hfirst)
    rw [Turn.owner, hwaiting] at hqueued
    cases hqueued

/-- The side that the join knows of when it is told of the other one is the one that ended first. -/
theorem Expecting.resuming (h : Expecting σ j a k n place)
    (hresumes : Resumes (σ n) j a (σ (n + 1))) : Resuming σ j a k (n + 1) := by
  obtain ⟨J, hJ, rfl, rfl⟩ := h.join
  cases hresumes with
  | @mk J' left o o' hJ' _ hturn hfirst hqueued =>
    rw [hJ] at hJ'
    cases hJ'
    have hends : endings σ j n = (!left, o') :: (σ n).ready.filterMap (endTold j) := by
      rw [← h.heard]
      simp [reports, hJ, hfirst]
    obtain ⟨t₁, t₂, hlt, ht₂, hother, hlast⟩ := exists_lt_of_endings hends
      (List.mem_filterMap.mpr ⟨_, hturn, endTold_settled⟩)
    refine ⟨!left, o', o, ⟨t₁, t₂, hlt, Nat.lt_succ_of_lt ht₂, ending_eq_some_iff.mp hother, ?_⟩,
      hqueued⟩
    rw [Bool.not_not]
    exact ending_eq_some_iff.mp hlast

/-- Who waits goes on waiting, or both sides have ended and it has a turn to go on. -/
theorem Expecting.next (h : Expecting σ j a k n place) (hσ : Timeline σ) :
    (∃ place', Expecting σ j a k (n + 1) place') ∨ Resuming σ j a k (n + 1) := by
  obtain ⟨J, hJ, howner, hnext⟩ := h.join
  rcases hσ n with hstep | ⟨hstop, heq⟩
  · obtain ⟨place', huniform, hfollows⟩ := h.uniform.next (Trait.upheld_sound _) hstep.next
    rcases hfollows.waits h.waiting with hwaiting | hresumes
    · obtain ⟨J', hJ', howner', hnext'⟩ := hstep.next.joins hJ
      exact .inl ⟨place', huniform, hwaiting, ⟨J', hJ', howner'.trans howner, hnext'.trans hnext⟩,
        h.reports_next hstep huniform.placed hwaiting⟩
    · exact .inr (h.resuming hresumes)
  · refine .inl ⟨place, heq ▸ h.uniform, h.waiting, heq ▸ h.join, ?_⟩
    rw [endings, ending_of_idle (focus_of_stopped hstop), Option.toList_none, List.append_nil, heq,
      h.heard]

/-- Where two sides have just been started, nothing is known of their ends. -/
theorem expecting_split (hσ : Timeline σ) (hm : Reachable (σ 0))
    (hfocus : (σ 0).focus = some (a, .both l r k)) :
    ∃ place, Expecting σ (σ 0).joins.length a k 1 place := by
  have hsplit : σ 1 = (σ 0).split a l r k := hσ.advance hfocus
  obtain ⟨place, hjoining⟩ := joining_split hm hfocus
  rw [← hsplit] at hjoining
  refine ⟨place, hjoining.uniform, hjoining.waiting, hjoining.join, ?_⟩
  rw [hsplit, reports_split hm]
  simp [endings, ending, hfocus]

/-! ## Going on -/

/-- The process of `a`, which waits for two sides from the start, goes on at the moment `t`. -/
structure Resumption (σ : Nat → Machine) (j : Nat) (a : Owner) (k : Settled → Process)
    (left : Bool) (first second : Outcome) (t : Nat) : Prop where
  halt : HaltInTurn σ j left first second t
  waits : ∀ i, 0 < i → i < t → ∀ p, (σ i).focus ≠ some (a, p)
  focus : (σ t).focus = some (a, k (pair left first second))

/-- How far a process has come that waits for two sides. -/
inductive Stage (σ : Nat → Machine) (j : Nat) (a : Owner) (k : Settled → Process) (n : Nat) : Prop
  | expecting {place : Owner → Place} (h : Expecting σ j a k n place)
      (hwaits : ∀ i, 0 < i → i ≤ n → ∀ p, (σ i).focus ≠ some (a, p))
  | resuming (h : Resuming σ j a k n)
      (hwaits : ∀ i, 0 < i → i ≤ n → ∀ p, (σ i).focus ≠ some (a, p))
  | resumed {left : Bool} {first second : Outcome} {t : Nat} (ht : t ≤ n)
      (h : Resumption σ j a k left first second t)

theorem Expecting.not_running (h : Expecting σ j a k n place) (p : Process) :
    (σ n).focus ≠ some (a, p) := by
  intro hfocus
  have hrunning := h.uniform.placed.running hfocus
  rw [h.waiting] at hrunning
  cases hrunning

theorem Resuming.not_running (h : Resuming σ j a k n) (hm : Reachable (σ n)) (p : Process) :
    (σ n).focus ≠ some (a, p) := by
  obtain ⟨place, huniform⟩ := hm.uniform
  obtain ⟨left, first, second, -, hturn⟩ := h
  exact fun hfocus => huniform.placed.ne_of_queued hfocus hturn rfl

theorem forall_le_succ {P : Nat → Prop} (h : ∀ i, 0 < i → i ≤ n → P i) (hlast : P (n + 1)) :
    ∀ i, 0 < i → i ≤ n + 1 → P i := by
  intro i hpos hi
  rcases Nat.le_succ_iff.mp hi with hi | rfl
  · exact h i hpos hi
  · exact hlast

theorem Stage.next (h : Stage σ j a k n) (hσ : Timeline σ) (hm : Reachable (σ 0)) :
    Stage σ j a k (n + 1) := by
  have hreach : Reachable (σ (n + 1)) := hm.of_reaches (hσ.reaches (Nat.zero_le _))
  cases h with
  | expecting h hwaits =>
    rcases h.next hσ with ⟨place', h'⟩ | h'
    · exact .expecting h' (forall_le_succ hwaits h'.not_running)
    · exact .resuming h' (forall_le_succ hwaits (h'.not_running hreach))
  | resuming h hwaits =>
    obtain ⟨left, first, second, hhalt, hturn⟩ := h
    rcases hσ.mem_ready hturn with hturn | htakes
    · have h' : Resuming σ j a k (n + 1) :=
        ⟨left, first, second, hhalt.mono (Nat.le_succ n), hturn⟩
      exact .resuming h' (forall_le_succ hwaits (h'.not_running hreach))
    · exact .resumed (Nat.le_refl _) ⟨hhalt.mono (Nat.le_succ n),
        fun i hpos hi => hwaits i hpos (Nat.le_of_lt_succ hi), htakes.focus⟩
  | resumed ht h => exact .resumed (Nat.le_succ_of_le ht) h

/-- From the moment on at which two sides have been started, who waits for them is at a stage. -/
theorem stage_of_split (hσ : Timeline σ) (hm : Reachable (σ 0))
    (hfocus : (σ 0).focus = some (a, .both l r k)) (hpos : 0 < n) :
    Stage σ (σ 0).joins.length a k n := by
  induction n, hpos using Nat.le_induction with
  | base =>
    obtain ⟨place, h⟩ := expecting_split hσ hm hfocus
    refine .expecting h fun i hpos hi => ?_
    obtain rfl : i = 1 := Nat.le_antisymm hi hpos
    exact h.not_running
  | succ n _ ih => exact ih.next hσ hm

theorem Stage.resumed_of_focus (h : Stage σ j a k n) (hpos : 0 < n)
    (hfocus : (σ n).focus = some (a, q)) :
    ∃ t left first second, t ≤ n ∧ Resumption σ j a k left first second t := by
  cases h with
  | expecting h hwaits => exact absurd hfocus (h.not_running q)
  | resuming h hwaits => exact absurd hfocus (hwaits n hpos (Nat.le_refl n) q)
  | resumed ht h => exact ⟨_, _, _, _, ht, h⟩

/-! ## Ends that are taken notice of -/

/-- Who has a turn goes on. -/
theorem Fair.exists_focus (hfair : Fair σ) (hturn : .resume a p ∈ (σ n).ready) :
    ∃ i, n < i ∧ (σ i).focus = some (a, p) := by
  obtain ⟨i, hi, htakes⟩ := hfair n _ hturn
  exact ⟨i + 1, Nat.lt_succ_of_le hi, htakes.focus⟩

/-- Of two sides that have ended, one is still to be told of, and it is not the first one that the
join hears of. -/
theorem exists_told (hreports : ∀ left, ∃ o, (left, o) ∈ reports j m) :
    ∃ x rest left o, reports j m = x :: rest ∧ (left, o) ≠ x ∧ .settled j left o ∈ m.ready := by
  obtain ⟨o, ho⟩ := hreports true
  rcases hm : reports j m with _ | ⟨⟨left, o'⟩, rest⟩
  · rw [hm] at ho
    cases ho
  obtain ⟨o, ho⟩ := hreports (!left)
  have hne : (!left, o) ≠ (left, o') := by simp
  refine ⟨_, rest, !left, o, rfl, hne, ?_⟩
  rw [reports, List.mem_append, Option.mem_toList] at ho
  rcases ho with hfirst | hturn
  · rw [reports, hfirst] at hm
    simp at hm
  · obtain ⟨u, hu, hreport⟩ := List.mem_filterMap.mp hturn
    exact endTold_eq_some_iff.mp hreport ▸ hu

theorem prefix_endings (hle : n ≤ i) : endings σ j n <+: endings σ j i := by
  induction hle with
  | refl => exact List.prefix_rfl
  | step _ ih => exact ih.trans (List.prefix_append _ _)

theorem Stage.expecting_or_runs (h : Stage σ j a k n) (hfair : Fair σ) :
    (∃ place, Expecting σ j a k n place) ∨ ∃ i q, 0 < i ∧ (σ i).focus = some (a, q) := by
  cases h with
  | expecting h => exact .inl ⟨_, h⟩
  | resuming h =>
    obtain ⟨left, first, second, -, hturn⟩ := h
    obtain ⟨i, hi, hfocus⟩ := hfair.exists_focus hturn
    exact .inr ⟨i, _, by omega, hfocus⟩
  | @resumed _ _ _ t ht h =>
    obtain ⟨t₁, t₂, -, ht₂, -⟩ := h.halt
    exact .inr ⟨t, _, by omega, h.focus⟩

/-- If every turn is taken, who waits for two sides goes on when both have ended. -/
theorem Fair.runs_again (hfair : Fair σ) (hσ : Timeline σ) (hm : Reachable (σ 0))
    (hfocus : (σ 0).focus = some (a, .both l r k))
    (hends : ∀ left, ∃ t o, Halts (σ t) (.side (σ 0).joins.length left) o) :
    ∃ i q, 0 < i ∧ (σ i).focus = some (a, q) := by
  obtain ⟨n, hpos, hended⟩ : ∃ n, 0 < n ∧
      ∀ left, ∃ o, (left, o) ∈ endings σ (σ 0).joins.length n := by
    obtain ⟨t₁, o₁, h₁⟩ := hends true
    obtain ⟨t₂, o₂, h₂⟩ := hends false
    refine ⟨t₁ + t₂ + 1, Nat.succ_pos _, fun left => ?_⟩
    cases left with
    | true => exact ⟨o₁, mem_endings.mpr ⟨t₁, by omega, ending_eq_some_iff.mpr h₁⟩⟩
    | false => exact ⟨o₂, mem_endings.mpr ⟨t₂, by omega, ending_eq_some_iff.mpr h₂⟩⟩
  rcases (stage_of_split hσ hm hfocus hpos).expecting_or_runs hfair with ⟨place, h⟩ | hruns
  swap
  · exact hruns
  -- the side that the join hears of last is told to it, be it now or later
  obtain ⟨x, rest, left, o, hreports, hne, hturn⟩ := exists_told (m := σ n) (h.heard ▸ hended)
  obtain ⟨i, hi, htakes⟩ := hfair n _ hturn
  rcases (stage_of_split hσ hm hfocus (Nat.lt_of_lt_of_le hpos hi)).expecting_or_runs hfair with
    ⟨place', h'⟩ | hruns
  swap
  · exact hruns
  obtain ⟨more, hmore⟩ := prefix_endings (σ := σ) (j := (σ 0).joins.length) hi
  rw [← h.heard, ← h'.heard, hreports, List.cons_append] at hmore
  obtain ⟨J, hJ, rfl, -⟩ := h'.join
  obtain ⟨s, hresume⟩ := htakes.resumes_of_heard hJ hmore.symm hne
  obtain ⟨e, he, hagain⟩ := hfair.exists_focus hresume
  exact ⟨e, _, by omega, hagain⟩

end Machine
end UpdateDispatch
