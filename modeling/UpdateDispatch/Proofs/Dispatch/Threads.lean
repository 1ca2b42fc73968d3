import UpdateDispatch.Proofs.Dispatch.Continuation
import UpdateDispatch.Proofs.Dispatch.Places

/-!
# What a process comes to

`Process.Leads` follows one process through a run, whatever the others do in the meantime: what it
reads, how its sides end and whether a guard is used may be anything. What surrounds a process does
nothing until that process stops (`Surrounds.of_runs`).

A `Trait` is a property of processes that they keep and hand on to what they start. `Region`
describes a part of a run in which an owner is busy with a process inside of another one: that
process and all that is started below it have one trait, and all other processes another. It lasts
until the inner process stops (`Region.of_trace`).
-/

namespace UpdateDispatch

open Relation

/-! ## Functions of the context -/

namespace Probe

/-- What follows, after the value that a function of the context notes. -/
def noted (p : Probe Condition) (q : Process) : Process :=
  match p.note with
  | some v => Process.record (.note v) q
  | none => q

/-- What a function of the context does last: it raises or answers. -/
def result (p : Probe Condition) (x : Nat) : Process :=
  match p.throws with
  | some t => .raised (t.fault (some x))
  | none => p.answer x

/-- A function of the context from its call to its end. -/
def asked (p : Probe Condition) (x : Nat) : Process := Process.pauses p.delay (p.noted (p.result x))

theorem ask_eq (p : Probe Condition) (x : Nat) (k : Json → Process) :
    p.ask x k = (p.asked x).andThen fun
      | .ok v => k v
      | .error f => .raised f := rfl

end Probe

namespace Process

open Machine (Runs Parks)

variable {K : Process → Process} {p q : Process}

/-! ## Steps of one process -/

/-- A step of one process, whatever it finds. -/
inductive Step : Process → Process → Prop
  | runs {n n' : Nat} {w w' : World} {p q : Process} (h : Runs n w p n' w' q) : Step p q
  | pause {p : Process} : Step (.pause p) p
  | join {l r : Process} {k : Settled → Process} (s : Settled) : Step (.both l r k) (k s)

/-- What a process can come to. -/
abbrev Leads : Process → Process → Prop := ReflTransGen Step

/-- A process that has ended, or whose call has. -/
inductive Stopped : Process → Prop
  | value (v : Json) : Stopped (.value v)
  | raised (f : Fault) : Stopped (.raised f)
  | deferred (p : Process) : Stopped (.deferred p)

/-- A process that has ended. -/
inductive Ended : Process → Outcome → Prop
  | value (v : Json) : Ended (.value v) (.ok v)
  | raised (f : Fault) : Ended (.raised f) (.error f)

theorem andThen_andThen (p : Process) (k k' : Outcome → Process) :
    (p.andThen k).andThen k' = p.andThen fun o => (k o).andThen k' := by
  induction p with
  | value v | raised f => rfl
  | deferred p ih => exact ih
  | write f p ih | useGuard _ p ih | pause p ih => simp only [andThen, ih]
  | read k ih | newGuard k ih | checkGuard _ k ih | await _ k ih => simp only [andThen, ih]
  | start _ k _ ih | enter _ _ _ k _ ih => simp only [andThen, ih]
  | both _ _ k _ _ ih => simp only [andThen, ih]

/-- What follows a process does not matter to its steps. -/
theorem leads_andThen (h : Leads p q) (k : Outcome → Process) :
    Leads (p.andThen k) (q.andThen k) := by
  induction h with
  | refl => exact .refl
  | @tail q r _ hstep ih =>
    refine ih.trans ?_
    cases hstep with
    | pause => exact .single .pause
    | join s => exact .single (.join s)
    | @runs n n' w w' _ _ hruns =>
      cases hruns with
      | deferred => exact .refl
      | read => exact .single (.runs (n := n) (w := w) .read)
      | write => exact .single (.runs (n := n) (w := w) .write)
      | newGuard => exact .single (.runs (w := w) .newGuard)
      | checkGuard used => exact .single (.runs (n := n) (w := w) (.checkGuard used))
      | useGuard => exact .single (.runs (n := n) (w := w) .useGuard)
      | enter =>
        rw [andThen_andThen]
        exact .single (.runs (n := n) (w := w) .enter)

/-! ## What surrounds a process -/

theorem Surrounds.comp {K' : Process → Process} (h : Surrounds K) (h' : Surrounds K') :
    Surrounds fun p => K (K' p) := by
  induction h with
  | hole => exact h'
  | andThen k _ ih => exact .andThen k ih
  | onCall k _ ih => exact .onCall k ih

theorem Surrounds.read (h : Surrounds K) (k : World → Process) :
    K (read k) = .read fun w => K (k w) := by
  induction h with
  | hole => rfl
  | andThen next _ ih | onCall next _ ih =>
    dsimp only
    rw [ih]
    rfl

theorem Surrounds.write (h : Surrounds K) (f : World → World) (p : Process) :
    K (write f p) = .write f (K p) := by
  induction h with
  | hole => rfl
  | andThen next _ ih | onCall next _ ih =>
    dsimp only
    rw [ih]
    rfl

theorem Surrounds.newGuard (h : Surrounds K) (k : Nat → Process) :
    K (newGuard k) = .newGuard fun i => K (k i) := by
  induction h with
  | hole => rfl
  | andThen next _ ih | onCall next _ ih =>
    dsimp only
    rw [ih]
    rfl

theorem Surrounds.pause (h : Surrounds K) (p : Process) : K (pause p) = .pause (K p) := by
  induction h with
  | hole => rfl
  | andThen next _ ih | onCall next _ ih =>
    dsimp only
    rw [ih]
    rfl

theorem Surrounds.both (h : Surrounds K) (l r : Process) (k : Settled → Process) :
    K (both l r k) = .both l r fun s => K (k s) := by
  induction h with
  | hole => rfl
  | andThen next _ ih | onCall next _ ih =>
    dsimp only
    rw [ih]
    rfl

theorem Surrounds.start (h : Surrounds K) (p : Process) (k : Nat → Process) :
    K (start p k) = .start p fun i => K (k i) := by
  induction h with
  | hole => rfl
  | andThen next _ ih | onCall next _ ih =>
    dsimp only
    rw [ih]
    rfl

theorem Surrounds.await (h : Surrounds K) (task : Nat) (k : Outcome → Process) :
    K (await task k) = .await task fun o => K (k o) := by
  induction h with
  | hole => rfl
  | andThen next _ ih | onCall next _ ih =>
    dsimp only
    rw [ih]
    rfl

theorem Surrounds.enter (h : Surrounds K) (l : Link) (x : Nat) (next : Process)
    (k : Outcome → Process) : K (enter l x next k) = .enter l x next fun o => K (k o) := by
  induction h with
  | hole => rfl
  | andThen next _ ih | onCall next _ ih =>
    dsimp only
    rw [ih]
    rfl

theorem andThen_onCall (p : Process) (k : Outcome → Process) (k' : Reply → Process) :
    (p.andThen k).onCall k' = p.andThen fun o => (k o).onCall k' := by
  induction p with
  | value v | raised f => rfl
  | deferred p ih => exact ih
  | write f p ih | useGuard _ p ih | pause p ih => simp only [andThen, onCall, ih]
  | read k ih | newGuard k ih | checkGuard _ k ih | await _ k ih =>
    simp only [andThen, onCall, ih]
  | start _ k _ ih | enter _ _ _ k _ ih => simp only [andThen, onCall, ih]
  | both _ _ k _ _ ih => simp only [andThen, onCall, ih]

theorem Surrounds.apply_andThen (h : Surrounds K) (p : Process) (k : Outcome → Process) :
    K (p.andThen k) = p.andThen fun o => K (k o) := by
  induction h with
  | hole => rfl
  | andThen next _ ih =>
    dsimp only
    rw [ih, andThen_andThen]
  | onCall next _ ih =>
    dsimp only
    rw [ih, andThen_onCall]

/-- The first step of a process that has not stopped is that of the whole. -/
inductive Lifted (K : Process → Process) : Process → Process → Prop
  | read (k : World → Process) : Lifted K (.read k) (.read fun w => K (k w))
  | write (f : World → World) (p : Process) : Lifted K (.write f p) (.write f (K p))
  | newGuard (k : Nat → Process) : Lifted K (.newGuard k) (.newGuard fun i => K (k i))
  | checkGuard (guard : Nat) (k : Bool → Process) :
      Lifted K (.checkGuard guard k) (.checkGuard guard fun used => K (k used))
  | useGuard (guard : Nat) (p : Process) : Lifted K (.useGuard guard p) (.useGuard guard (K p))
  | pause (p : Process) : Lifted K (.pause p) (.pause (K p))
  | both (l r : Process) (k : Settled → Process) :
      Lifted K (.both l r k) (.both l r fun s => K (k s))
  | start (p : Process) (k : Nat → Process) : Lifted K (.start p k) (.start p fun i => K (k i))
  | await (task : Nat) (k : Outcome → Process) :
      Lifted K (.await task k) (.await task fun o => K (k o))
  | enter (l : Link) (x : Nat) (next : Process) (k : Outcome → Process) :
      Lifted K (.enter l x next k) (.enter l x next fun o => K (k o))

theorem Surrounds.lifted (hK : Surrounds K) (hstop : ¬ Stopped p) : Lifted K p (K p) := by
  cases p with
  | value v => exact absurd (.value v) hstop
  | raised f => exact absurd (.raised f) hstop
  | deferred p => exact absurd (.deferred p) hstop
  | read k => exact hK.read k ▸ .read k
  | write f p => exact hK.write f p ▸ .write f p
  | newGuard k => exact hK.newGuard k ▸ .newGuard k
  | checkGuard guard k => exact hK.checkGuard guard k ▸ .checkGuard guard k
  | useGuard guard p => exact hK.useGuard guard p ▸ .useGuard guard p
  | pause p => exact hK.pause p ▸ .pause p
  | both l r k => exact hK.both l r k ▸ .both l r k
  | start p k => exact hK.start p k ▸ .start p k
  | await task k => exact hK.await task k ▸ .await task k
  | enter l x next k => exact hK.enter l x next k ▸ .enter l x next k

/-- While a process has not stopped, its steps are those of the whole. -/
theorem Surrounds.of_runs (hK : Surrounds K) (hstop : ¬ Stopped p) {n n' : Nat} {w w' : World}
    (h : Runs n w (K p) n' w' q) : ∃ p', q = K p' ∧ Runs n w p n' w' p' := by
  have hlifted := hK.lifted hstop
  generalize K p = whole at h hlifted
  cases hlifted <;> cases h
  case read.read => exact ⟨_, rfl, .read⟩
  case write.write => exact ⟨_, rfl, .write⟩
  case newGuard.newGuard => exact ⟨_, rfl, .newGuard⟩
  case checkGuard.checkGuard => exact ⟨_, rfl, .checkGuard _⟩
  case useGuard.useGuard => exact ⟨_, rfl, .useGuard⟩
  -- the link is called inside of what surrounded the step
  case enter.enter k => exact ⟨_, (hK.apply_andThen _ k).symm, .enter⟩

theorem Surrounds.of_parks (hK : Surrounds K) (hstop : ¬ Stopped p) {j : Nat} {a b : Owner}
    (h : Parks j a (K p) b q) :
    (∃ left, b = .side j left ∧ Parks j a p b q) ∨
      (b = a ∧ ∃ p', q = K p' ∧ Parks j a p a p' ∧ Step p p') := by
  have hlifted := hK.lifted hstop
  generalize K p = whole at h hlifted
  cases hlifted <;> cases h
  case pause.pause => exact .inr ⟨rfl, _, rfl, .pause, .pause⟩
  case both.left => exact .inl ⟨true, rfl, .left⟩
  case both.right => exact .inl ⟨false, rfl, .right⟩
  case both.join s => exact .inr ⟨rfl, _, rfl, .join s, .join s⟩

theorem Surrounds.of_start (hK : Surrounds K) (hstop : ¬ Stopped p) {k : Nat → Process}
    (h : K p = .start q k) : ∃ k', p = .start q k' := by
  have hlifted := hK.lifted hstop
  rw [h] at hlifted
  cases hlifted
  exact ⟨_, rfl⟩

theorem Surrounds.of_write (hK : Surrounds K) (hstop : ¬ Stopped p) {f : World → World}
    (h : K p = .write f q) : ∃ p', p = .write f p' := by
  have hlifted := hK.lifted hstop
  rw [h] at hlifted
  cases hlifted
  exact ⟨_, rfl⟩

/-! ## Processes within others -/

/-- A process and what is left of it when ends of calls in front of it are passed over. -/
inductive Awaits : Process → Process → Prop
  | refl {p : Process} : Awaits p p
  | deferred {p q : Process} (h : Awaits p q) : Awaits (deferred p) q

theorem Awaits.leads (h : Awaits p q) : Leads p q := by
  induction h with
  | refl => exact .refl
  | deferred _ ih =>
    exact .head (.runs (n := 0) (w := { client := none, me := default }) .deferred) ih

/-- A process without the ends of calls in front of it. -/
def strip : Process → Process
  | deferred p => p.strip
  | p => p

theorem strip_andThen (p : Process) (k : Outcome → Process) :
    p.strip.andThen k = p.andThen k := by
  induction p with
  | deferred p ih => exact ih
  | _ => rfl

theorem awaits_strip (p : Process) : Awaits p p.strip := by
  induction p with
  | deferred p ih => exact .deferred ih
  | _ => exact .refl

theorem ended_of_stopped_strip (h : Stopped p.strip) : ∃ o, Ended p.strip o := by
  induction p with
  | deferred p ih => exact ih h
  | value v => exact ⟨_, .value v⟩
  | raised f => exact ⟨_, .raised f⟩
  | _ => cases h

/-- Until the inner process stops, the steps of the whole are its own. -/
structure Encloses (F : Process → Process) (Stop : Process → Prop) : Prop where
  runs : ∀ {p n w n' w' q}, ¬ Stop p → Runs n w (F p) n' w' q →
    ∃ p₁ p', Awaits p p₁ ∧ q = F p' ∧ Runs n w p₁ n' w' p'
  parks : ∀ {p j a b q}, ¬ Stop p → Parks j a (F p) b q → ∃ p₁, Awaits p p₁ ∧
    ((∃ left, b = .side j left ∧ Parks j a p₁ b q) ∨
      (b = a ∧ ∃ p', q = F p' ∧ Parks j a p₁ a p' ∧ Step p₁ p'))
  starts : ∀ {p q k}, ¬ Stop p → F p = .start q k → ∃ k', Awaits p (.start q k')
  writes : ∀ {p f q}, ¬ Stop p → F p = .write f q → ∃ p', Awaits p (.write f p')

/-- A process that runs by itself. -/
theorem encloses_alone : Encloses (fun p => p) fun _ => False where
  runs {p _ _ _ _ q} _ h := ⟨p, q, .refl, rfl, h⟩
  parks {p _ _ _ _} _ h := by
    refine ⟨p, .refl, ?_⟩
    cases h with
    | pause => exact .inr ⟨rfl, _, rfl, .pause, .pause⟩
    | left => exact .inl ⟨true, rfl, .left⟩
    | right => exact .inl ⟨false, rfl, .right⟩
    | join s => exact .inr ⟨rfl, _, rfl, .join s, .join s⟩
  starts {_ _ k} _ h := ⟨k, h ▸ .refl⟩
  writes {_ _ q} _ h := ⟨q, h ▸ .refl⟩

/-- A process whose call is waited for, until the call is over. -/
theorem Surrounds.encloses_call (hK : Surrounds K) (k : Reply → Process) :
    Encloses (fun p => K (p.onCall k)) Stopped where
  runs {p _ _ _ _ q} hstop h := by
    obtain ⟨p', rfl, hp⟩ := (hK.comp (.onCall k .hole)).of_runs hstop h
    exact ⟨p, p', .refl, rfl, hp⟩
  parks {p _ _ _ _} hstop h := ⟨p, .refl, (hK.comp (.onCall k .hole)).of_parks hstop h⟩
  starts hstop h := by
    obtain ⟨k', rfl⟩ := (hK.comp (.onCall k .hole)).of_start hstop h
    exact ⟨k', .refl⟩
  writes hstop h := by
    obtain ⟨p', rfl⟩ := (hK.comp (.onCall k .hole)).of_write hstop h
    exact ⟨p', .refl⟩

/-- A process whose end is waited for, until it ends. -/
theorem Surrounds.encloses_await (hK : Surrounds K) (k : Outcome → Process) :
    Encloses (fun p => K (p.andThen k)) fun p => ∃ o, Ended p.strip o where
  runs {p _ _ _ _ q} hstop h := by
    have hstop : ¬ Stopped p.strip := fun h => hstop (ended_of_stopped_strip h)
    rw [← strip_andThen] at h
    obtain ⟨p', rfl, hp⟩ := (hK.comp (.andThen k .hole)).of_runs hstop h
    exact ⟨p.strip, p', awaits_strip p, rfl, hp⟩
  parks {p _ _ _ _} hstop h := by
    have hstop : ¬ Stopped p.strip := fun h => hstop (ended_of_stopped_strip h)
    rw [← strip_andThen] at h
    exact ⟨p.strip, awaits_strip p, (hK.comp (.andThen k .hole)).of_parks hstop h⟩
  starts {p _ _} hstop h := by
    have hstop : ¬ Stopped p.strip := fun h => hstop (ended_of_stopped_strip h)
    rw [← strip_andThen] at h
    obtain ⟨k', hp⟩ := (hK.comp (.andThen k .hole)).of_start hstop h
    exact ⟨k', hp ▸ awaits_strip p⟩
  writes {p _ _} hstop h := by
    have hstop : ¬ Stopped p.strip := fun h => hstop (ended_of_stopped_strip h)
    rw [← strip_andThen] at h
    obtain ⟨p', hp⟩ := (hK.comp (.andThen k .hole)).of_write hstop h
    exact ⟨p', hp ▸ awaits_strip p⟩

end Process

/-! ## Traits of processes -/

/-- A property of processes: of one that runs now, with a number of guards and a state, and of one
that will go on later, when there may be more guards and marks. -/
structure Trait where
  now : Nat → World → Process → Prop
  later : Nat → Nat → Process → Prop
  mono : ∀ {guards guards' marks marks' p}, later guards marks p → guards ≤ guards' →
    marks ≤ marks' → later guards' marks' p
  of_later : ∀ {guards w p}, later guards w.marks.length p → now guards w p

namespace Trait

open Machine (Runs Parks)
open Process (Awaits Encloses Leads Step)

variable {T U : Trait} {n : Nat} {w : World} {p q : Process}

/-- A process keeps the trait `T` in a step and hands the trait `U` to what it starts. -/
structure Leaves (T U : Trait) (n : Nat) (w : World) (p : Process) : Prop where
  runs : ∀ {n' w' q}, Runs n w p n' w' q → T.now n' w' q ∧ w.marks.length ≤ w'.marks.length
  parks : ∀ {j a q}, (∀ left, a ≠ .side j left) → Parks j a p a q → T.later n w.marks.length q
  sides : ∀ {j a left q}, (∀ left, a ≠ .side j left) → Parks j a p (.side j left) q →
    U.later n w.marks.length q
  starts : ∀ {q k}, p ≠ .start q k

/-- A trait that no process loses, and that each hands on to all that it starts. -/
def Upheld (T : Trait) : Prop := ∀ ⦃n w p⦄, T.now n w p → Leaves T T n w p

theorem Upheld.awaits (hT : T.Upheld) (h : T.now n w p) (hawaits : Awaits p q) : T.now n w q := by
  induction hawaits with
  | refl => exact h
  | deferred _ ih => exact ih ((hT h).runs .deferred).1

/-- What a process with the trait `T` has come to since it stood as `p₀` inside of another one. -/
def Within (F : Process → Process) (p₀ : Process) (T : Trait) : Trait where
  now n w q := ∃ p, q = F p ∧ Leads p₀ p ∧ T.now n w p
  later n marks q := ∃ p, q = F p ∧ Leads p₀ p ∧ T.later n marks p
  mono := by
    rintro _ _ _ _ _ ⟨p, rfl, hleads, hp⟩ hn hm
    exact ⟨p, rfl, hleads, T.mono hp hn hm⟩
  of_later := by
    rintro _ _ _ ⟨p, rfl, hleads, hp⟩
    exact ⟨p, rfl, hleads, T.of_later hp⟩

/-- The same, for a trait of the whole. -/
def Along (F : Process → Process) (p₀ : Process) (T : Trait) : Trait where
  now n w q := T.now n w q ∧ ∃ p, q = F p ∧ Leads p₀ p
  later n marks q := T.later n marks q ∧ ∃ p, q = F p ∧ Leads p₀ p
  mono h hn hm := ⟨T.mono h.1 hn hm, h.2⟩
  of_later h := ⟨T.of_later h.1, h.2⟩

variable {F : Process → Process} {Stop : Process → Prop} {p₀ : Process}

/-- Until the inner process stops, it keeps what it had. -/
theorem Upheld.leaves_within (hT : T.Upheld) (hF : Encloses F Stop) (h : (Within F p₀ T).now n w q)
    (hstop : ¬ ∃ p, q = F p ∧ Leads p₀ p ∧ Stop p) : Leaves (Within F p₀ T) T n w q := by
  obtain ⟨p, rfl, hleads, hp⟩ := h
  have hstop : ¬ Stop p := fun h => hstop ⟨p, rfl, hleads, h⟩
  constructor
  · intro n' w' q hruns
    obtain ⟨p₁, p', hawaits, rfl, hstep⟩ := hF.runs hstop hruns
    obtain ⟨hp', hmarks⟩ := (hT (hT.awaits hp hawaits)).runs hstep
    exact ⟨⟨p', rfl, (hleads.trans hawaits.leads).tail (.runs hstep), hp'⟩, hmarks⟩
  · intro j a q ha hparks
    obtain ⟨p₁, hawaits, ⟨left, hside, -⟩ | ⟨-, p', rfl, hpark, hstep⟩⟩ := hF.parks hstop hparks
    · exact absurd hside (ha left)
    · exact ⟨p', rfl, (hleads.trans hawaits.leads).tail hstep,
        (hT (hT.awaits hp hawaits)).parks ha hpark⟩
  · intro j a left q ha hparks
    obtain ⟨p₁, hawaits, ⟨left', hside, hpark⟩ | ⟨hside, -⟩⟩ := hF.parks hstop hparks
    · exact (hT (hT.awaits hp hawaits)).sides ha hpark
    · exact absurd hside.symm (ha left)
  · intro q k heq
    obtain ⟨k', hawaits⟩ := hF.starts hstop heq
    exact (hT (hT.awaits hp hawaits)).starts rfl

theorem Upheld.leaves_along (hT : T.Upheld) (hF : Encloses F Stop) (h : (Along F p₀ T).now n w q)
    (hstop : ¬ ∃ p, q = F p ∧ Leads p₀ p ∧ Stop p) : Leaves (Along F p₀ T) T n w q := by
  obtain ⟨hq, p, rfl, hleads⟩ := h
  have hstop : ¬ Stop p := fun h => hstop ⟨p, rfl, hleads, h⟩
  have hleaves := hT hq
  refine ⟨fun {n' w' q} hruns => ?_, fun {j a q} ha hparks => ?_, hleaves.sides, hleaves.starts⟩
  · obtain ⟨p₁, p', hawaits, rfl, hstep⟩ := hF.runs hstop hruns
    obtain ⟨hq', hmarks⟩ := hleaves.runs hruns
    exact ⟨⟨hq', p', rfl, (hleads.trans hawaits.leads).tail (.runs hstep)⟩, hmarks⟩
  · obtain ⟨p₁, hawaits, ⟨left, hside, -⟩ | ⟨-, p', rfl, -, hstep⟩⟩ := hF.parks hstop hparks
    · exact absurd hside (ha left)
    · exact ⟨hleaves.parks ha hparks, p', rfl, (hleads.trans hawaits.leads).tail hstep⟩

end Trait

namespace Machine

open Process

variable {m m' : Machine} {place place' : Owner → Place} {a b : Owner} {p q : Process}
  {T U : Trait}

/-- The process of an owner has a trait. -/
structure Obeys (T : Trait) (m : Machine) (place : Owner → Place) (a : Owner) : Prop where
  focus : ∀ {p}, m.focus = some (a, p) → T.now m.guards.length m.world p
  rests : ∀ {p}, Rests m place a p → T.later m.guards.length m.world.marks.length p

/-- At the start every process has a trait that all roots have. -/
theorem obeys_ofRoots {w : World} {ps : List Process}
    (h : ∀ p ∈ ps, T.later 0 w.marks.length p) (a : Owner) :
    Obeys T (ofRoots w ps) (startPlace ps.length) a where
  focus hfocus := by cases hfocus
  rests hrests := by
    cases hrests with
    | join s hJ => cases hJ
    | ready hmem =>
      simp only [ofRoots, List.mem_mapIdx] at hmem
      obtain ⟨i, hi, hp⟩ := hmem
      cases hp
      exact h _ (List.getElem_mem hi)

theorem Placed.place_of_rests (h : Placed m place) (hrests : Rests m place a p) :
    place a = .queued ∨ ∃ j, place a = .waiting j := by
  cases hrests with
  | ready hmem => exact .inl (h.queued hmem)
  | join s hJ hwait => exact .inr ⟨_, hwait⟩

theorem Placed.not_rests_of_gone (h : Placed m place) (hgone : place a = .gone) :
    ¬ Rests m place a p := by
  intro hrests
  have := h.place_of_rests hrests
  simp_all

theorem Placed.not_rests_of_running (h : Placed m place) (hfocus : m.focus = some (a, p)) :
    ¬ Rests m place a q := by
  intro hrests
  have hrunning := h.running hfocus
  have := h.place_of_rests hrests
  simp_all

/-- Whoever has no process has it with any trait. -/
theorem Placed.obeys_of_gone (h : Placed m place) (hgone : place a = .gone) :
    Obeys T m place a where
  focus hfocus := by
    have hrunning := h.running hfocus
    rw [hgone] at hrunning
    cases hrunning
  rests hrests := absurd hrests (h.not_rests_of_gone hgone)

theorem Follows.marks_le (h : Follows m place m' place')
    (hleaves : ∀ {c p}, m.focus = some (c, p) → ∃ T U : Trait,
      T.Leaves U m.guards.length m.world p) : m.world.marks.length ≤ m'.world.marks.length := by
  rcases h.shared with ⟨c, p, q, hfocus, hstep⟩ | ⟨-, hworld⟩
  · obtain ⟨T, U, hp⟩ := hleaves hfocus
    exact (hp.runs hstep).2
  · rw [hworld]

/-- A step, where every owner has a trait of its own afterwards: that in which the running process
leaves it, or that with which it rested. New sides have the one that the running process hands
on. -/
theorem Placed.obeys_step (h : Placed m place) (hnext : Next m m') {T : Owner → Trait}
    (hrests : ∀ {b p}, Rests m place b p →
      (T b).later m.guards.length m.world.marks.length p)
    (hleaves : ∀ {c p}, m.focus = some (c, p) → (T c).Leaves U m.guards.length m.world p) :
    ∃ place', Placed m' place' ∧ Follows m place m' place' ∧
      (∀ b, (∀ left, b ≠ .side m.joins.length left) → Obeys (T b) m' place' b) ∧
      ∀ left, Obeys U m' place' (.side m.joins.length left) := by
  obtain ⟨place', hplaced, hfollows⟩ :=
    h.carries_next hnext fun a p k hfocus => (hleaves hfocus).starts rfl
  have hguards := hnext.kept.length_le
  have hmarks := hfollows.marks_le fun hfocus => ⟨_, _, hleaves hfocus⟩
  refine ⟨place', hplaced, hfollows, fun b hb => ⟨?_, ?_⟩, fun left => ⟨?_, ?_⟩⟩
  · intro q hfocus
    rcases hfollows.focus hfocus with ⟨p, hp, hstep⟩ | ⟨-, hmem, -, -⟩
    · exact ((hleaves hp).runs hstep).1
    · exact (T b).of_later ((T b).mono (hrests (.ready hmem)) hguards hmarks)
  · intro q hlater
    rcases hfollows.rests hlater with hold | ⟨c, p, hp, hstep⟩
    · exact (T b).mono (hrests hold) hguards hmarks
    · have hc : b = c := by
        cases hstep with
        | pause | join s => rfl
        | left | right => exact absurd rfl (hb _)
      subst hc
      exact (T b).mono ((hleaves hp).parks hb hstep) hguards hmarks
  · intro q hfocus
    have hgone : place (.side m.joins.length left) = .gone := h.unborn (Nat.le_refl _)
    rcases hfollows.focus hfocus with ⟨p, hp, -⟩ | ⟨-, hmem, -, -⟩
    · exact absurd rfl (h.ne_unborn hp left)
    · exact absurd (.ready hmem) (h.not_rests_of_gone hgone)
  · intro q hlater
    have hgone : place (.side m.joins.length left) = .gone := h.unborn (Nat.le_refl _)
    rcases hfollows.rests hlater with hold | ⟨c, p, hp, hstep⟩
    · exact absurd hold (h.not_rests_of_gone hgone)
    · exact U.mono ((hleaves hp).sides (h.ne_unborn hp) hstep) hguards hmarks

/-- A step, where every owner has a trait of its own: all keep theirs, and new sides have the one
that the running process hands on. -/
theorem Placed.obeys_next (h : Placed m place) (hnext : Next m m') {T : Owner → Trait}
    (hobeys : ∀ b, Obeys (T b) m place b)
    (hleaves : ∀ {c p}, m.focus = some (c, p) → (T c).Leaves U m.guards.length m.world p) :
    ∃ place', Placed m' place' ∧ Follows m place m' place' ∧
      (∀ b, (∀ left, b ≠ .side m.joins.length left) → Obeys (T b) m' place' b) ∧
      ∀ left, Obeys U m' place' (.side m.joins.length left) :=
  h.obeys_step hnext (fun hrests => (hobeys _).rests hrests) hleaves

theorem Placed.goesOn (h : Placed m place) (hfocus : m.focus = some (a, p)) (w : World)
    (q : Process) : Placed { m with world := w, focus := some (a, q) } place where
  running hq := by
    cases hq
    exact h.running hfocus
  queued := h.queued
  distinct := h.distinct
  waiting := h.waiting
  told := h.told
  unborn := h.unborn
  alone := h.alone

/-- What another process comes to does not matter to one that rests. -/
theorem Obeys.goesOn (h : Obeys T m place b) (hb : b ≠ a) {w : World} {q : Process}
    (hlater : ∀ {p}, T.later m.guards.length m.world.marks.length p →
      U.later m.guards.length w.marks.length p) :
    Obeys U { m with world := w, focus := some (a, q) } place b where
  focus hq := by
    cases hq
    exact absurd rfl hb
  rests hrests := by
    cases hrests with
    | ready hturn => exact hlater (h.rests (.ready hturn))
    | join s hJ hwait => exact hlater (h.rests (.join s hJ hwait))

/-! ## Traits of all processes -/

/-- A placed machine in which every owner has a trait of its own. -/
structure Assigned (T : Owner → Trait) (m : Machine) (place : Owner → Place) : Prop where
  placed : Placed m place
  obeys : ∀ b, Obeys (T b) m place b

/-- A placed machine whose processes all have the same trait. -/
abbrev Uniform (T : Trait) : Machine → (Owner → Place) → Prop := Assigned fun _ => T

theorem Assigned.next {T : Owner → Trait} (h : Assigned T m place) (hnext : Next m m')
    (hleaves : ∀ {c p}, m.focus = some (c, p) → (T c).Leaves U m.guards.length m.world p)
    (hnew : ∀ left, T (.side m.joins.length left) = U) :
    ∃ place', Assigned T m' place' ∧ Follows m place m' place' := by
  obtain ⟨place', hplaced, hfollows, hold, hside⟩ := h.placed.obeys_next hnext h.obeys hleaves
  refine ⟨place', ⟨hplaced, fun b => ?_⟩, hfollows⟩
  by_cases hb : ∃ left, b = .side m.joins.length left
  · obtain ⟨left, rfl⟩ := hb
    rw [hnew left]
    exact hside left
  · exact hold b fun left hleft => hb ⟨left, hleft⟩

theorem Uniform.next (h : Uniform T m place) (hT : T.Upheld) (hnext : Next m m') :
    ∃ place', Uniform T m' place' ∧ Follows m place m' place' :=
  Assigned.next h hnext (fun hfocus => hT ((h.obeys _).focus hfocus)) fun _ => rfl

theorem Uniform.of_reaches (h : Uniform T m place) (hT : T.Upheld)
    (hrun : ReflTransGen Next m m') : ∃ place', Uniform T m' place' := by
  induction hrun with
  | refl => exact ⟨place, h⟩
  | tail _ hnext ih =>
    obtain ⟨place', ih⟩ := ih
    obtain ⟨place'', hnext, -⟩ := Uniform.next ih hT hnext
    exact ⟨place'', hnext⟩

/-! ## Traces -/

/-- A run by the states that it passes, without the last one. -/
inductive Trace : Machine → List Machine → Machine → Prop
  | nil {m : Machine} : Trace m [] m
  | snoc {m s s' : Machine} {past : List Machine} (h : Trace m past s) (hnext : Next s s') :
      Trace m (past ++ [s]) s'

variable {s : Machine} {past : List Machine}

theorem Trace.reaches (h : Trace m past m') : ReflTransGen Next m m' := by
  induction h with
  | nil => exact .refl
  | snoc _ hnext ih => exact ih.tail hnext

theorem exists_trace (h : ReflTransGen Next m m') : ∃ past, Trace m past m' := by
  induction h with
  | refl => exact ⟨[], .nil⟩
  | tail _ hnext ih =>
    obtain ⟨past, ih⟩ := ih
    exact ⟨_, ih.snoc hnext⟩

theorem Trace.eq_of_nil (h : Trace m [] m') : m' = m := by
  generalize hnil : [] = past at h
  cases h with
  | nil => rfl
  | snoc => simp at hnil

theorem Trace.uncons (h : Trace m (s :: past) m') :
    s = m ∧ ∃ s', Next m s' ∧ Trace s' past m' := by
  generalize hcons : s :: past = all at h
  induction h generalizing past with
  | nil => cases hcons
  | @snoc t t' before h hnext ih =>
    cases before with
    | nil =>
      cases hcons
      cases h.eq_of_nil
      exact ⟨rfl, t', hnext, .nil⟩
    | cons first before =>
      cases hcons
      obtain ⟨hs, s', hs', htrace⟩ := ih rfl
      exact ⟨hs, s', hs', htrace.snoc hnext⟩

theorem Trace.transGen (h : Trace m (s :: past) m') : TransGen Next m m' := by
  obtain ⟨-, s', hnext, htrace⟩ := h.uncons
  exact .head' hnext htrace.reaches

/-- What follows a state of a run is a run from that state. -/
theorem Trace.drop {before : List Machine} (h : Trace m (before ++ s :: past) m') :
    Trace m before s ∧ Trace s (s :: past) m' := by
  generalize hall : before ++ s :: past = all at h
  induction h generalizing past with
  | nil => simp at hall
  | @snoc t t' all h hnext ih =>
    rcases past.eq_nil_or_concat' with rfl | ⟨past, e, rfl⟩
    · obtain ⟨rfl, hs⟩ := List.append_inj' hall rfl
      cases hs
      exact ⟨h, .snoc .nil hnext⟩
    · rw [← List.cons_append, ← List.append_assoc] at hall
      obtain ⟨hpast, hs⟩ := List.append_inj' hall rfl
      cases hs
      exact ⟨(ih hpast).1, (ih hpast).2.snoc hnext⟩

theorem Trace.read (h : Trace m (m :: past) m') {K : Process → Process} (hK : Surrounds K)
    {f : World → Process}
    (hfocus : m.focus = some (a, K (.read f))) :
    Next m (m.focusOn a (K (f m.world))) ∧ Trace (m.focusOn a (K (f m.world))) past m' := by
  rw [hK.read] at hfocus
  obtain ⟨-, s, hnext, hlater⟩ := h.uncons
  obtain rfl : s = m.focusOn a (K (f m.world)) := hnext.eq_advance hfocus
  exact ⟨hnext, hlater⟩

theorem Trace.write (h : Trace m (m :: past) m') {K : Process → Process} (hK : Surrounds K)
    {f : World → World}
    (hfocus : m.focus = some (a, K (.write f p))) :
    Next m { m with world := f m.world, focus := some (a, K p) } ∧
      Trace { m with world := f m.world, focus := some (a, K p) } past m' := by
  rw [hK.write] at hfocus
  obtain ⟨-, s, hnext, hlater⟩ := h.uncons
  obtain rfl : s = { m with world := f m.world, focus := some (a, K p) } :=
    hnext.eq_advance hfocus
  exact ⟨hnext, hlater⟩

theorem run_succ (n : Nat) (m : Machine) (h : (run n m).step = some m') : run (n + 1) m = m' := by
  induction n generalizing m with
  | zero =>
    rw [run, show m.step = some m' from h]
    rfl
  | succ n ih =>
    rcases hstep : m.step with _ | s
    · rw [run, hstep] at h
      rw [hstep] at h
      cases h
    · have hrun : ∀ n, run (n + 1) m = run n s := fun n => by rw [run, hstep]
      rw [hrun] at h ⊢
      exact ih s h

/-- The states of a run of the program are a trace. -/
theorem trace_run (m : Machine) (n : Nat) (h : ∀ k < n, (run k m).step.isSome) :
    Trace m ((List.range n).map fun k => run k m) (run n m) := by
  induction n with
  | zero => exact .nil
  | succ n ih =>
    obtain ⟨s, hs⟩ := Option.isSome_iff_exists.mp (h n (Nat.lt_succ_self n))
    rw [List.range_succ, List.map_append, run_succ n m hs]
    exact (ih fun k hk => h k (Nat.lt_succ_of_lt hk)).snoc (next_of_step hs)

/-! ## A process and all below it -/

open Classical in
/-- The trait of each owner while `a` is busy: `W` for `a` itself, `T` for those inside with it, and
`U` for all others. -/
noncomputable def shares (inside : Owner → Prop) (a : Owner) (W T U : Trait) (b : Owner) : Trait :=
  if b = a then W else if inside b then T else U

/-- A part of a run in which the owner `a` has the trait `W`. Those `inside` are `a` and all that it
has started since, by joins from number `base` on. -/
structure Region (W T U : Trait) (a : Owner) (base : Nat) (m : Machine) (place : Owner → Place)
    (inside : Owner → Prop) : Prop where
  assigned : Assigned (shares inside a W T U) m place
  self : inside a
  below : ∀ {b}, inside b → Below base m a b
  born : ∀ {j left}, inside (.side j left) → j < m.joins.length
  base_le : base ≤ m.joins.length

/-- The process of `a` runs and is at an exit. -/
def Exits (E : Process → Prop) (a : Owner) (m : Machine) : Prop :=
  ∃ p, m.focus = some (a, p) ∧ E p

theorem Next.joins_length (hnext : Next m m') : m'.joins.length = m.joins.length ∨
    ∃ c l r k, m.focus = some (c, .both l r k) ∧ m' = m.split c l r k := by
  cases hnext with
  | @advance c p hfocus =>
    cases p with
    | both l r k => exact .inr ⟨c, l, r, k, hfocus, rfl⟩
    | value v | raised f => cases c <;> exact .inl rfl
    | await task k =>
      simp only [Machine.advance]
      split
      · exact .inl rfl
      · exact .inl rfl
      · cases c <;> exact .inl rfl
    | _ => exact .inl rfl
  | @turn before after t hfocus hready =>
    cases t with
    | resume c p => exact .inl rfl
    | settled j left o =>
      simp only [take, settle]
      split
      · exact .inl rfl
      · split
        · exact .inl List.length_set
        · exact .inl rfl

theorem Next.joins_le (hnext : Next m m') : m.joins.length ≤ m'.joins.length := by
  rcases hnext.joins_length with heq | ⟨c, l, r, k, -, rfl⟩
  · exact heq.ge
  · simp [split, idle]

theorem Next.world (hnext : Next m m') : m'.world = m.world ∨
    ∃ c f p, m.focus = some (c, .write f p) ∧ m'.world = f m.world := by
  cases hnext with
  | @advance c p hfocus =>
    cases p with
    | write f p => exact .inr ⟨c, f, p, hfocus, rfl⟩
    | value v | raised f => cases c <;> exact .inl rfl
    | await t k =>
      simp only [Machine.advance]
      split
      · exact .inl rfl
      · exact .inl rfl
      · cases c <;> exact .inl rfl
    | _ => exact .inl rfl
  | @turn before after t hfocus hready =>
    cases t with
    | resume c p => exact .inl rfl
    | settled j left o =>
      simp only [take, settle]
      split
      · exact .inl rfl
      · split <;> exact .inl rfl

theorem Placed.born (h : Placed m place) (ha : place a ≠ .gone) {j : Nat} {left : Bool}
    (heq : a = .side j left) : j < m.joins.length := by
  subst heq
  by_contra hj
  exact ha (h.unborn (Nat.le_of_not_lt hj))

variable {W : Trait} {E : Process → Prop} {base : Nat} {inside : Owner → Prop}

/-- A region starts with `a` alone. -/
theorem Placed.region (h : Placed m place) (ha : place a ≠ .gone) (hW : Obeys W m place a)
    (hU : ∀ b, b ≠ a → Obeys U m place b) :
    Region W T U a m.joins.length m place fun b => b = a where
  assigned := by
    refine ⟨h, fun b => ?_⟩
    by_cases hb : b = a
    · rw [shares, if_pos hb]
      exact hb ▸ hW
    · rw [shares, if_neg hb, if_neg hb]
      exact hU b hb
  self := rfl
  below hb := hb ▸ .self
  born hb := h.born ha hb.symm
  base_le := Nat.le_refl _

theorem Region.obeys (h : Region W T U a base m place inside) : Obeys W m place a := by
  have hobeys := h.assigned.obeys a
  rwa [shares, if_pos rfl] at hobeys

theorem Region.obeys_outside (h : Region W T U a base m place inside) (hb : ¬ inside b) :
    shares inside a W T U b = U := by
  have hba : b ≠ a := fun heq => hb (heq ▸ h.self)
  rw [shares, if_neg hba, if_neg hb]

theorem Region.unborn_outside (h : Region W T U a base m place inside) (left : Bool) :
    ¬ inside (.side m.joins.length left) := fun hinside => Nat.lt_irrefl _ (h.born hinside)

/-- A step of a process outside, or of none: nobody comes inside. -/
theorem Region.next_outside (h : Region W T U a base m place inside) (hU : U.Upheld)
    (hfocus : ∀ {c p}, m.focus = some (c, p) → ¬ inside c) (hnext : Next m m') :
    ∃ place', Region W T U a base m' place' inside := by
  obtain ⟨place', hassigned, -⟩ := h.assigned.next (U := U) hnext (fun {c p} hc => by
    rw [h.obeys_outside (hfocus hc)]
    have hobeys := (h.assigned.obeys c).focus hc
    rw [h.obeys_outside (hfocus hc)] at hobeys
    exact hU hobeys) fun left => h.obeys_outside (h.unborn_outside left)
  have hlength := hnext.joins_le
  exact ⟨place', hassigned, h.self, fun hb => (h.below hb).next hnext,
    fun hb => Nat.lt_of_lt_of_le (h.born hb) hlength, Nat.le_trans h.base_le hlength⟩

/-- A step of a process inside: the sides that it starts are inside too. -/
theorem Region.next_inside (h : Region W T U a base m place inside)
    (hfocus : m.focus = some (b, p)) (hb : inside b)
    (hleaves : (shares inside a W T U b).Leaves T m.guards.length m.world p)
    (hnext : Next m m') : ∃ place' inside', Region W T U a base m' place' inside' := by
  obtain ⟨place', hplaced, -, hold, hnew⟩ :=
    h.assigned.placed.obeys_next (U := T) hnext h.assigned.obeys fun {c q} hc => by
      rw [hfocus] at hc
      cases hc
      exact hleaves
  rcases hnext.joins_length with hlength | ⟨c, l, r, k, hboth, rfl⟩
  · refine ⟨place', inside, ⟨hplaced, fun c => ?_⟩, h.self, fun hb => (h.below hb).next hnext,
      fun hb => hlength ▸ h.born hb, hlength ▸ h.base_le⟩
    by_cases hc : ∃ left, c = .side m.joins.length left
    · obtain ⟨left, rfl⟩ := hc
      exact hplaced.obeys_of_gone (hplaced.unborn hlength.le)
    · exact hold c fun left hleft => hc ⟨left, hleft⟩
  · rw [hfocus] at hboth
    cases hboth
    have hlength : (m.split b l r k).joins.length = m.joins.length + 1 := by simp [split, idle]
    refine ⟨place', fun c => inside c ∨ ∃ left, c = .side m.joins.length left,
      ⟨hplaced, fun c => ?_⟩, .inl h.self, ?_, ?_, ?_⟩
    · by_cases hc : ∃ left, c = .side m.joins.length left
      · obtain ⟨left, rfl⟩ := hc
        have hne : Owner.side m.joins.length left ≠ a :=
          fun heq => h.unborn_outside left (heq ▸ h.self)
        rw [shares, if_neg hne, if_pos (.inr ⟨left, rfl⟩)]
        exact hnew left
      · have hobeys := hold c fun left hleft => hc ⟨left, hleft⟩
        have hinside : (inside c ∨ ∃ left, c = .side m.joins.length left) = inside c :=
          propext ⟨fun h => h.resolve_right hc, .inl⟩
        rwa [shares, hinside]
    · rintro c (hc | ⟨left, rfl⟩)
      · exact (h.below hc).next hnext
      · have hjoin : (m.split b l r k).joins[m.joins.length]? = some { owner := b, next := k } := by
          simp [split, idle]
        exact .side left h.base_le hjoin ((h.below hb).next hnext)
    · rintro j left (hc | ⟨left', hside⟩)
      · have hborn := h.born hc
        omega
      · cases hside
        omega
    · have hbase := h.base_le
      omega

theorem Region.next (h : Region W T U a base m place inside)
    (hW : ∀ ⦃n w p⦄, W.now n w p → ¬ E p → W.Leaves T n w p) (hT : T.Upheld) (hU : U.Upheld)
    (hexit : ¬ Exits E a m) (hnext : Next m m') :
    ∃ place' inside', Region W T U a base m' place' inside' := by
  by_cases hfocus : ∃ b p, m.focus = some (b, p) ∧ inside b
  · obtain ⟨b, p, hfocus, hb⟩ := hfocus
    refine h.next_inside hfocus hb ?_ hnext
    have hobeys := (h.assigned.obeys b).focus hfocus
    by_cases hba : b = a
    · rw [shares, if_pos hba] at hobeys ⊢
      exact hW hobeys fun hE => hexit ⟨p, hba ▸ hfocus, hE⟩
    · rw [shares, if_neg hba, if_pos hb] at hobeys ⊢
      exact hT hobeys
  · obtain ⟨place', hregion⟩ :=
      h.next_outside hU (fun hc hinside => hfocus ⟨_, _, hc, hinside⟩) hnext
    exact ⟨place', inside, hregion⟩

/-- A run that starts in a region and keeps a property of its past as long as it has not left the
region: it is still there, or it has come to an exit. -/
theorem Region.of_trace {P : List Machine → Machine → Prop}
    (h : Region W T U a base m place inside)
    (hW : ∀ ⦃n w p⦄, W.now n w p → ¬ E p → W.Leaves T n w p) (hT : T.Upheld) (hU : U.Upheld)
    (hstart : P [] m)
    (hkeeps : ∀ {past s s' place inside}, Region W T U a base s place inside → ¬ Exits E a s →
      P past s → Next s s' → P (past ++ [s]) s')
    (hrun : Trace m past m') :
    (∃ place' inside', Region W T U a base m' place' inside' ∧ P past m') ∨
      ∃ before e after place' inside', past = before ++ e :: after ∧ Trace m before e ∧
        Region W T U a base e place' inside' ∧ P before e ∧ Exits E a e ∧
        Trace e (e :: after) m' := by
  induction hrun with
  | nil => exact .inl ⟨place, inside, h, hstart⟩
  | @snoc s s' past hrun hnext ih =>
    rcases ih with ⟨place', inside', hregion, hP⟩ |
      ⟨before, e, after, place', inside', rfl, he, hregion, hP, hexit, hlater⟩
    · by_cases hexit : Exits E a s
      · exact .inr ⟨past, s, [], place', inside', rfl, hrun, hregion, hP, hexit, .snoc .nil hnext⟩
      · obtain ⟨place'', inside'', hregion'⟩ := hregion.next hW hT hU hexit hnext
        exact .inl ⟨place'', inside'', hregion', hkeeps hregion hexit hP hnext⟩
    · exact .inr ⟨before, e, after ++ [s], place', inside', by simp, he, hregion, hP, hexit,
        hlater.snoc hnext⟩

/-! ## One process along a run -/

theorem Placed.obeys_of_focus (h : Placed m place) (hfocus : m.focus = some (a, p))
    (hp : T.now m.guards.length m.world p) : Obeys T m place a where
  focus hq := by
    rw [hfocus] at hq
    cases hq
    exact hp
  rests hrests := absurd hrests (h.not_rests_of_running hfocus)

theorem Placed.obeys_of_turn (h : Placed m place) (hturn : .resume a p ∈ m.ready)
    (hp : T.later m.guards.length m.world.marks.length p) : Obeys T m place a where
  focus hq := absurd rfl (h.ne_of_queued hq hturn)
  rests hrests := by
    have hqueued : place a = .queued := h.queued hturn
    cases hrests with
    | ready hturn' =>
      have heq := List.inj_on_of_nodup_map h.distinct hturn' hturn rfl
      cases heq
      exact hp
    | join s hJ hwait =>
      rw [hqueued] at hwait
      cases hwait

/-- In a machine with a trait, an inner process leads to what it is later seen as, until it has
stopped. -/
theorem Uniform.along {F : Process → Process} {Stop : Process → Prop} {p₀ : Process}
    (h : Uniform T m place) (hT : T.Upheld) (hF : Encloses F Stop) (ha : place a ≠ .gone)
    (hobeys : Obeys (T.Along F p₀) m place a) (hrun : ReflTransGen Next m m')
    (hfocus : m'.focus = some (a, q)) : (∃ p, q = F p ∧ Leads p₀ p) ∨
      ∃ s p, ReflTransGen Next m s ∧ s.focus = some (a, F p) ∧ Leads p₀ p ∧ Stop p ∧
        TransGen Next s m' := by
  have hregion : Region (T.Along F p₀) T T a m.joins.length m place fun b => b = a :=
    h.placed.region ha hobeys fun b _ => h.obeys b
  obtain ⟨past, htrace⟩ := exists_trace hrun
  rcases hregion.of_trace (P := fun _ _ => True) (fun n w p hp hE => hT.leaves_along hF hp hE) hT hT
    trivial (fun _ _ _ _ => trivial) htrace with
    ⟨_, _, hregion, -⟩ | ⟨_, s, _, _, _, -, hs, -, -, ⟨q, hq, p, rfl, hp, hstop⟩, hlater⟩
  · exact .inl (hregion.obeys.focus hfocus).2
  · exact .inr ⟨s, p, hs.reaches, hq, hp, hstop, hlater.transGen⟩

/-! ## The end of what is waited for -/

section Ends

variable {K : Process → Process} {k : Outcome → Process} {p₀ : Process} {e : Machine} {o : Outcome}

/-- What is waited for has come to its end. -/
def AtEnd (K : Process → Process) (k : Outcome → Process) (p₀ q : Process) : Prop :=
  ∃ p, q = K (p.andThen k) ∧ Leads p₀ p ∧ ∃ o, Ended p.strip o

/-- In the state `e` the process of `a` has come from `p₀` to the end `o`, and what it stood in goes
on. -/
structure EndsAt (a : Owner) (K : Process → Process) (k : Outcome → Process) (p₀ : Process)
    (e : Machine) (o : Outcome) : Prop where
  leads : Leads p₀ (ended o)
  focus : e.focus = some (a, K (k o))

theorem strip_eq_of_ended (h : Ended p.strip o) : p.strip = ended o := by
  generalize p.strip = r at h
  cases h <;> rfl

theorem endsAt_of_stopped (hfocus : e.focus = some (a, K (p.andThen k))) (hleads : Leads p₀ p)
    (h : Ended p.strip o) : EndsAt a K k p₀ e o where
  leads := strip_eq_of_ended h ▸ hleads.trans (awaits_strip p).leads
  focus := by
    rw [hfocus, ← strip_andThen, strip_eq_of_ended h]
    cases o <;> rfl

/-- In these states the process of `a` is, whenever it runs, `F` of something with the property
`S`. -/
def Keeps (a : Owner) (F : Process → Process) (S : Process → Prop) (states : List Machine) : Prop :=
  ∀ s ∈ states, ∀ q, s.focus = some (a, q) → ∃ p, q = F p ∧ S p

variable {F : Process → Process} {S : Process → Prop} {states : List Machine}

theorem keeps_nil : Keeps a F S [] := List.forall_mem_nil _

theorem Keeps.snoc (h : Keeps a F S states)
    (hm : ∀ q, m.focus = some (a, q) → ∃ p, q = F p ∧ S p) : Keeps a F S (states ++ [m]) := by
  intro s hs
  rcases List.mem_append.mp hs with hs | hs
  · exact h s hs
  · rw [List.mem_singleton.mp hs]
    exact hm

theorem Keeps.append {states' : List Machine} (h : Keeps a F S states) (h' : Keeps a F S states') :
    Keeps a F S (states ++ states') := fun s hs =>
  (List.mem_append.mp hs).elim (h s) (h' s)

theorem Keeps.imp {F' : Process → Process} {S' : Process → Prop} (h : Keeps a F S states)
    (himp : ∀ {p}, S p → ∃ p', F p = F' p' ∧ S' p') : Keeps a F' S' states := by
  intro s hs q hq
  obtain ⟨p, rfl, hp⟩ := h s hs q hq
  exact himp hp

/-- What `p₀` has led to, and has not ended. -/
def Busy (p₀ p : Process) : Prop := Leads p₀ p ∧ ¬ ∃ o, Ended p.strip o

/-- In a machine with a trait, a process inside of another one goes on until it ends, whatever the
others do. -/
theorem Uniform.keeps_or_ends (h : Uniform T m place) (hT : T.Upheld) (hK : Surrounds K)
    (hfocus : m.focus = some (a, K (p₀.andThen k))) (hrun : Trace m past m') :
    (Keeps a (fun p => K (p.andThen k)) (Busy p₀) past ∧
      ∀ q, m'.focus = some (a, q) → ∃ p, q = K (p.andThen k) ∧ Leads p₀ p) ∨
    ∃ before e after o, past = before ++ e :: after ∧ Trace m before e ∧
      Trace e (e :: after) m' ∧ Keeps a (fun p => K (p.andThen k)) (Busy p₀) before ∧
      EndsAt a K k p₀ e o := by
  have hrunning : place a = .running := h.placed.running hfocus
  have hobeys : Obeys (T.Along (fun p => K (p.andThen k)) p₀) m place a :=
    h.placed.obeys_of_focus hfocus ⟨(h.obeys a).focus hfocus, p₀, rfl, .refl⟩
  have hregion : Region (T.Along (fun p => K (p.andThen k)) p₀) T T a m.joins.length m place
      fun b => b = a :=
    h.placed.region (by rw [hrunning]; exact nofun) hobeys fun b _ => h.obeys b
  have hkeeps : ∀ {past s s' place inside},
      Region (T.Along (fun p => K (p.andThen k)) p₀) T T a m.joins.length s place inside →
      ¬ Exits (AtEnd K k p₀) a s → Keeps a (fun p => K (p.andThen k)) (Busy p₀) past →
      Next s s' → Keeps a (fun p => K (p.andThen k)) (Busy p₀) (past ++ [s]) := by
    intro past s s' place inside hregion hexit hkeeps _
    refine hkeeps.snoc fun q hq => ?_
    obtain ⟨-, p, rfl, hleads⟩ := hregion.obeys.focus hq
    exact ⟨p, rfl, hleads, fun hend => hexit ⟨_, hq, p, rfl, hleads, hend⟩⟩
  rcases hregion.of_trace (E := AtEnd K k p₀)
    (P := fun past _ => Keeps a (fun p => K (p.andThen k)) (Busy p₀) past)
    (fun n w p hp hE => hT.leaves_along (hK.encloses_await k) hp hE) hT hT keeps_nil hkeeps hrun
    with ⟨_, _, hregion, hbusy⟩ |
      ⟨before, e, after, _, _, rfl, he, -, hbusy, ⟨q, hq, p, rfl, hleads, o, ho⟩, hlater⟩
  · exact .inl ⟨hbusy, fun q hq => (hregion.obeys.focus hq).2⟩
  · exact .inr ⟨before, e, after, o, rfl, he, hlater, hbusy, endsAt_of_stopped hq hleads ho⟩

end Ends

end Machine
end UpdateDispatch
