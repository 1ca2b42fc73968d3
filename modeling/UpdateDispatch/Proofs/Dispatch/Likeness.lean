import UpdateDispatch.Proofs.Dispatch.Threads

/-!
# Likeness of scripts

Two processes are alike (`Process.Alike`) when they do the same to the state, suspend and start
sides in the same order, and end with the same fault, if any. Where they call their continuations,
the continuations need only be related; what they do then is compared elsewhere.

A script that is called with related continuations is like its body performed as a suspending
function (`alike_script`). The body of a plain function ends with the first action that gives
something to await.
-/

namespace UpdateDispatch

/-! ## Outcomes -/

/-- Outcomes with the same fault, or without one. -/
def Outcome.Alike (o o' : Outcome) : Prop := Outcome.fault? o = Outcome.fault? o'

theorem Outcome.Alike.refl (o : Outcome) : Outcome.Alike o o := rfl

theorem Outcome.alike_ok (v v' : Json) : Outcome.Alike (.ok v) (.ok v') := rfl

theorem Outcome.Alike.cases {o o' : Outcome} (h : Outcome.Alike o o') :
    (∃ v v', o = .ok v ∧ o' = .ok v') ∨ ∃ f, o = .error f ∧ o' = .error f := by
  rcases o with f | v <;> rcases o' with f' | v'
  · obtain rfl : f = f' := Option.some.inj h
    exact .inr ⟨f, rfl, rfl⟩
  · cases h
  · cases h
  · exact .inl ⟨v, v', rfl, rfl⟩

/-- Sides that ended alike, in the same order. -/
structure Settled.Alike (s s' : Settled) : Prop where
  left : Outcome.Alike s.left s'.left
  right : Outcome.Alike s.right s'.right
  leftFirst : s.leftFirst = s'.leftFirst

namespace Process

variable {p p' q n n' : Process} {k k' : Outcome → Process}

/-! ## Calls and their ends -/

theorem onCall_onCall (p : Process) (k k' : Reply → Process) :
    (p.onCall k).onCall k' = p.onCall fun r => (k r).onCall k' := by
  induction p with
  | value v | raised f | deferred p => rfl
  | write f p ih | useGuard _ p ih | pause p ih => simp only [onCall, ih]
  | read k ih | newGuard k ih | checkGuard _ k ih | await _ k ih => simp only [onCall, ih]
  | start _ k _ ih | enter _ _ _ k _ ih => simp only [onCall, ih]
  | both _ _ k _ _ ih => simp only [onCall, ih]

theorem onCall_andThen (p : Process) (k : Reply → Process) (k' : Outcome → Process) :
    (p.onCall k).andThen k' = p.onCall fun r => (k r).andThen k' := by
  induction p with
  | value v | raised f | deferred p => rfl
  | write f p ih | useGuard _ p ih | pause p ih => simp only [onCall, andThen, ih]
  | read k ih | newGuard k ih | checkGuard _ k ih | await _ k ih =>
    simp only [onCall, andThen, ih]
  | start _ k _ ih | enter _ _ _ k _ ih => simp only [onCall, andThen, ih]
  | both _ _ k _ _ ih => simp only [onCall, andThen, ih]

/-- A process goes on when its call is over, and awaits what the call gives. -/
theorem andThen_eq_onCall (p : Process) (k : Outcome → Process) :
    p.andThen k = p.onCall fun
      | .value v => k (.ok v)
      | .raised f => k (.error f)
      | .awaitable p => p.andThen k := by
  induction p with
  | value v | raised f | deferred p => rfl
  | write f p ih | useGuard _ p ih | pause p ih => simp only [onCall, andThen, ih]
  | read k ih | newGuard k ih | checkGuard _ k ih | await _ k ih =>
    simp only [onCall, andThen, ih]
  | start _ k _ ih | enter _ _ _ k _ ih => simp only [onCall, andThen, ih]
  | both _ _ k _ _ ih => simp only [onCall, andThen, ih]

theorem awaited_andThen (p : Process) (k : Outcome → Process) :
    p.awaited.andThen k = p.andThen k := by
  rw [awaited, onCall_andThen, andThen_eq_onCall]
  congr
  funext r
  cases r <;> rfl

theorem awaited_awaited (p : Process) : p.awaited.awaited = p.awaited := by
  unfold awaited
  rw [onCall_onCall]
  congr
  funext r
  cases r <;> rfl

theorem awaited_thenCalled (p q : Process) : p.awaited.thenCalled q = p.awaited := by
  unfold awaited thenCalled
  rw [onCall_onCall]
  congr
  funext r
  cases r <;> rfl

theorem once_awaited (guard : Nat) (rest : Process) :
    (once guard rest).awaited = once guard rest := by
  rw [once, awaited, onCall]
  congr
  funext used
  cases used
  · exact congrArg (useGuard guard) (awaited_awaited rest)
  · rfl

/-- The call of a guarded continuation gives something to await, or fails. -/
theorem once_thenCalled (guard : Nat) (rest q : Process) :
    (once guard rest).thenCalled q = once guard rest := by
  rw [once, thenCalled, onCall]
  congr
  funext used
  cases used
  · exact congrArg (useGuard guard) (awaited_thenCalled rest q)
  · rfl

theorem followedBy_andThen (p q : Process) (k : Outcome → Process) :
    (p.followedBy q).andThen k = p.andThen fun
      | .ok _ => q.andThen k
      | .error f => k (.error f) := by
  rw [followedBy, andThen_andThen]
  congr
  funext o
  cases o <;> rfl

/-- What follows a process whose value is of no interest. -/
def ignoring (k : Outcome → Process) : Outcome → Process
  | .ok _ => k (.ok .null)
  | .error f => k (.error f)

theorem ignored_andThen (p : Process) (k : Outcome → Process) :
    p.ignored.andThen k = p.andThen (ignoring k) := by
  rw [ignored, followedBy_andThen]
  rfl

theorem ended_ignored_andThen (o : Outcome) (k : Outcome → Process) :
    (ended o).ignored.andThen k = ignoring k o := by
  rw [ignored_andThen]
  cases o <;> rfl

/-- A process that is called and then awaited. -/
def performed (p : Process) : Process := p.andThen ended

theorem performed_andThen (p : Process) (k : Outcome → Process) :
    (p.andThen k).performed = p.andThen fun o => (k o).performed := andThen_andThen p k ended

theorem performed_strip (p : Process) : p.strip.performed = p.performed := strip_andThen p ended

/-! ## Processes that call nothing -/

/-- A process that ends within `n` steps, without suspending, and calls nothing. -/
inductive Prompt : Nat → Process → Prop
  | value {n : Nat} (v : Json) : Prompt (n + 1) (.value v)
  | raised {n : Nat} (f : Fault) : Prompt (n + 1) (.raised f)
  | read {n : Nat} {k : World → Process} (h : ∀ w, Prompt n (k w)) : Prompt (n + 1) (.read k)
  | write {n : Nat} {f : World → World} {p : Process} (hf : ∀ w, (f w).composers = w.composers)
      (h : Prompt n p) : Prompt (n + 1) (.write f p)

/-- A process that ends within `n` steps and calls nothing. -/
inductive Quiet : Nat → Process → Prop
  | value {n : Nat} (v : Json) : Quiet (n + 1) (.value v)
  | raised {n : Nat} (f : Fault) : Quiet (n + 1) (.raised f)
  | deferred {n : Nat} {p : Process} (h : Quiet n p) : Quiet (n + 1) (.deferred p)
  | read {n : Nat} {k : World → Process} (h : ∀ w, Quiet n (k w)) : Quiet (n + 1) (.read k)
  | write {n : Nat} {f : World → World} {p : Process} (hf : ∀ w, (f w).composers = w.composers)
      (h : Quiet n p) : Quiet (n + 1) (.write f p)
  | pause {n : Nat} {p : Process} (h : Quiet n p) : Quiet (n + 1) (.pause p)

variable {i j : Nat}

theorem Prompt.quiet (h : Prompt i p) : Quiet i p := by
  induction h with
  | value v => exact .value v
  | raised f => exact .raised f
  | read _ ih => exact .read ih
  | write hf _ ih => exact .write hf ih

theorem Prompt.thenCalled (h : Prompt i p) (q : Process) : p.thenCalled q = p.followedBy q := by
  rw [Process.thenCalled, followedBy]
  induction h with
  | value v | raised f => rfl
  | read _ ih => simp only [onCall, andThen, ih]
  | write _ _ ih => simp only [onCall, andThen, ih]

theorem prompt_done : Prompt (i + 1) done := .value .null

theorem prompt_record (e : Event) : Prompt (i + 2) (record e) := .write (fun _ => rfl) prompt_done

theorem prompt_setContext (x : Nat) (c : Context) :
    Prompt (i + 2) (write (World.setContext x c) done) := .write (fun _ => rfl) prompt_done

theorem prompt_withContext {e : Frame} {member : String} {k : Nat → Context → Process}
    (h : ∀ x c, Prompt i (k x c)) : Prompt (i + 1) (e.withContext member k) := by
  unfold Frame.withContext
  split
  · exact .read fun w => h _ _
  · exact .raised _

theorem prompt_withValue {α : Type} {e : Frame} {member : String} {f : Context → Except Fault α}
    {k : α → Process} (h : ∀ a, Prompt (i + 1) (k a)) :
    Prompt (i + 2) (e.withValue member f k) := by
  refine prompt_withContext fun x c => ?_
  split
  · exact h _
  · exact .raised _

theorem prompt_noteFailure (e : Frame) : Prompt 3 (Process.noteFailure e) := by
  unfold Process.noteFailure
  split
  · refine prompt_withContext fun x c => ?_
    split
    · exact prompt_record _
    · exact .raised _
  · exact .raised _

theorem prompt_throwCause (failure : Option Fault) : Prompt 1 (Process.throwCause failure) := by
  unfold Process.throwCause
  split <;> exact .raised _

theorem Quiet.mono (h : Quiet i p) (hle : i ≤ j) : Quiet j p := by
  induction h generalizing j <;> obtain ⟨m, rfl⟩ := Nat.exists_eq_add_of_lt hle
  case value v => exact .value v
  case raised f => exact .raised f
  case deferred ih => exact .deferred (ih (by omega))
  case read ih => exact .read fun w => ih w (by omega)
  case write hf _ ih => exact .write hf (ih (by omega))
  case pause ih => exact .pause (ih (by omega))

theorem Quiet.andThen (h : Quiet i p) (hk : ∀ o, Quiet j (k o)) :
    Quiet (i + j) (p.andThen k) := by
  induction h with
  | value v => exact (hk _).mono (Nat.le_add_left _ _)
  | raised f => exact (hk _).mono (Nat.le_add_left _ _)
  | deferred _ ih => exact ih.mono (by omega)
  | read _ ih =>
    rw [Nat.add_right_comm]
    exact .read ih
  | write hf _ ih =>
    rw [Nat.add_right_comm]
    exact .write hf ih
  | pause _ ih =>
    rw [Nat.add_right_comm]
    exact .pause ih

theorem quiet_pauses (count : Nat) (h : Quiet i p) : Quiet (i + count) (pauses count p) := by
  induction count with
  | zero => exact h
  | succ count ih => exact .pause ih

theorem quiet_reply (c : Context) (text : Json) (other : List (String × Json)) :
    Quiet 3 (Process.reply c text other) := by
  unfold Process.reply
  split
  · exact .raised _
  refine .read fun w => ?_
  split
  · exact .raised _
  split
  · exact .raised _
  split
  · exact .raised _
  · refine .write (fun _ => rfl) ?_
    split
    · exact .raised _
    · exact .value _

end Process

/-! ## Bodies of scripts -/

namespace Action

/-- Whether a plain function ends with an action, because its call gives something to await. -/
def suspends : Action → Bool
  | .next | .nextCaught | .nextTwice | .pause _ | .reply _ _ => true
  | _ => false

/-- Whether an action calls the continuation. -/
def continues : Action → Bool
  | .next | .nextDropped | .nextCaught | .nextTwice => true
  | _ => false

/-- The actions up to the first one that gives something to await. -/
def untilSuspended : List Action → List Action
  | [] => []
  | a :: rest => if a.suspends then [a] else a :: untilSuspended rest

end Action

/-- The actions of a script that may be performed. -/
def Script.body (s : Script) : List Action :=
  if s.plain then Action.untilSuspended s.actions else s.actions

/-- What a function of a chain is called with. -/
def Frame.between (x : Nat) (next : Process) : Frame := { context := some x, next := some next }

/-- A function of a chain that is no composer. -/
inductive Fn where
  | pass
  | script (s : Script)

/-- Nothing is done by a call of these functions before it is awaited. -/
def StartsAwaited : List Fn → Prop
  | [] => True
  | .pass :: rest => StartsAwaited rest
  | .script s :: _ => s.plain = false

namespace Process

variable {p p' q n n' : Process} {k k' : Outcome → Process}

/-- The continuation of a call whose result is dropped. -/
def dropping : Reply → Process
  | .raised f => raised f
  | _ => done

/-! ## Likeness -/

/-- Processes that do the same, given continuations `C` for the functions that are left. -/
inductive Alike (C : List Fn → Process → Process → Prop) : Process → Process → Prop
  | value (v v' : Json) : Alike C (.value v) (.value v')
  | raised (f : Fault) : Alike C (.raised f) (.raised f)
  | read {k k' : World → Process} (h : ∀ w, Alike C (k w) (k' w)) : Alike C (.read k) (.read k')
  | write {f : World → World} {p p' : Process} (hf : ∀ w, (f w).composers = w.composers)
      (h : Alike C p p') : Alike C (.write f p) (.write f p')
  | pause {p p' : Process} (h : Alike C p p') : Alike C (.pause p) (.pause p')
  | both {l r l' r' : Process} {k k' : Settled → Process} (hl : Alike C l.performed l'.performed)
      (hr : Alike C r.performed r'.performed)
      (hk : ∀ s s', Settled.Alike s s' → Alike C (k s) (k' s')) :
      Alike C (.both l r k) (.both l' r' k')
  | call {fs : List Fn} {n n' : Process} {k k' : Outcome → Process} (hC : C fs n n')
      (hk : ∀ o o', Outcome.Alike o o' → Alike C (k o) (k' o')) :
      Alike C (n.andThen k) (n'.andThen k')
  | drop {fs : List Fn} {n n' : Process} {k k' : Outcome → Process} (hC : C fs n n')
      (hfs : StartsAwaited fs) (hk : ∀ o o', Outcome.Alike o o' → Alike C (k o) (k' o')) :
      Alike C ((n.onCall dropping).andThen k) ((n'.onCall dropping).andThen k')

/-- Continuations of a process that are alike after alike outcomes. -/
def Follow (C : List Fn → Process → Process → Prop) (k k' : Outcome → Process) : Prop :=
  ∀ o o', Outcome.Alike o o' → Alike C (k o) (k' o')

variable {C C' : List Fn → Process → Process → Prop} {i : Nat}

theorem Alike.mono (h : Alike C p p') (hC : ∀ {fs n n'}, C fs n n' → C' fs n n') :
    Alike C' p p' := by
  induction h with
  | value v v' => exact .value v v'
  | raised f => exact .raised f
  | read _ ih => exact .read ih
  | write hf _ ih => exact .write hf ih
  | pause _ ih => exact .pause ih
  | both _ _ _ ihl ihr ihk => exact .both ihl ihr ihk
  | call h _ ih => exact .call (hC h) ih
  | drop h hfs _ ih => exact .drop (hC h) hfs ih

theorem Follow.mono (h : Follow C k k') (hC : ∀ {fs n n'}, C fs n n' → C' fs n n') :
    Follow C' k k' := fun o o' ho => (h o o' ho).mono hC

theorem follow_ended : Follow C ended ended := by
  intro o o' ho
  obtain ⟨v, v', rfl, rfl⟩ | ⟨f, rfl, rfl⟩ := ho.cases
  · exact .value v v'
  · exact .raised f

theorem Follow.ignoring (hk : Follow C k k') : Follow C (ignoring k) (ignoring k') := by
  intro o o' ho
  obtain ⟨v, v', rfl, rfl⟩ | ⟨f, rfl, rfl⟩ := ho.cases
  · exact hk _ _ (.refl _)
  · exact hk _ _ (.refl _)

/-- Another process follows, unless there is a fault. -/
theorem Follow.ok (hk : Follow C k k') {q q' : Process} (hq : Alike C q q') :
    Follow C (fun | .ok _ => q | .error f => k (.error f))
      (fun | .ok _ => q' | .error f => k' (.error f)) := by
  intro o o' ho
  obtain ⟨v, v', rfl, rfl⟩ | ⟨f, rfl, rfl⟩ := ho.cases
  · exact hq
  · exact hk _ _ (.refl _)

theorem Quiet.alike (h : Quiet i p) (hk : Follow C k k') :
    Alike C (p.andThen k) (p.andThen k') := by
  induction h with
  | value v => exact hk _ _ (.refl _)
  | raised f => exact hk _ _ (.refl _)
  | deferred _ ih => exact ih
  | read _ ih => exact .read ih
  | write hf _ ih => exact .write hf ih
  | pause _ ih => exact .pause ih

/-! ## Likeness of scripts -/

/-- The continuations that two functions are called with: related ones, or the end of the chain. A
call of them gives no value. -/
structure Continues (C : List Fn → Process → Process → Prop) (fs : List Fn) (n n' : Process) :
    Prop where
  related : C fs n n' ∨ (n = leaf ∧ n' = leaf)
  thenCalled : ∀ q, n.thenCalled q = n

theorem Continues.call (h : Continues C fs n n') (hk : Follow C k k') :
    Alike C (n.andThen k) (n'.andThen k') := by
  rcases h.related with hC | ⟨rfl, rfl⟩
  · exact .call hC hk
  · exact hk _ _ (.refl _)

theorem Continues.drop (h : Continues C fs n n') (hfs : StartsAwaited fs) (hk : Follow C k k') :
    Alike C ((n.onCall dropping).andThen k) ((n'.onCall dropping).andThen k') := by
  rcases h.related with hC | ⟨rfl, rfl⟩
  · exact .drop hC hfs hk
  · exact hk _ _ (.refl _)

/-- What an action must not do before the functions `fs`: register anything, or drop a call that
does something at once. -/
structure Heeds (fs : List Fn) (a : Action) : Prop where
  dropped : a = .nextDropped → StartsAwaited fs
  unchanging : ∀ s, a ≠ .step s

/-- What a script does when it registers something. -/
def registering (s : UpdateDispatch.Step) : Process := building (Build.step s) fun _ => done

/-- What a run compares of an action before the functions `fs`: it does not drop a call that does
something at once, and what it registers is related to itself. -/
structure Allowed (C : List Fn → Process → Process → Prop) (fs : List Fn) (a : Action) :
    Prop where
  dropped : a = .nextDropped → StartsAwaited fs
  registered : ∀ s, a = .step s → C fs (registering s) (registering s)

variable {fs : List Fn} {x : Nat} {a : Action}

/-- An action that neither suspends nor calls the continuation. -/
theorem prompt_call (e : Frame) (hsuspends : a.suspends = false) (ha : a.continues = false)
    (hstep : ∀ s, a ≠ .step s) : ∃ n, Prompt n (a.call e) := by
  cases a with
  | next | nextDropped | nextCaught | nextTwice => cases ha
  | pause | reply => cases hsuspends
  | step s => exact absurd rfl (hstep s)
  | note v => exact ⟨2, prompt_record _⟩
  | throw t => exact ⟨1, .raised _⟩
  | noteMatch =>
    simp only [Action.call]
    exact ⟨3, prompt_withContext fun x c => prompt_record _⟩
  | setMatch v =>
    simp only [Action.call]
    exact ⟨3, prompt_withContext fun x c => prompt_setContext x _⟩
  | setField key v =>
    simp only [Action.call]
    refine ⟨3, prompt_withContext fun x c => ?_⟩
    split
    · exact prompt_setContext x _
    · exact .raised _
  | noteField key => exact ⟨3, prompt_withValue fun v => prompt_record _⟩
  | noteAccessor name => exact ⟨3, prompt_withValue fun m => prompt_record _⟩
  | noteFilter query => exact ⟨3, prompt_withValue fun b => prompt_record _⟩
  | rethrow =>
    simp only [Action.call]
    refine ⟨1, ?_⟩
    split <;> exact .raised _
  | throwCause => exact ⟨1, prompt_throwCause _⟩
  | noteFailure => exact ⟨3, prompt_noteFailure _⟩

/-- An action that does not call the continuation. -/
theorem quiet_call (e : Frame) (ha : a.continues = false) (hstep : ∀ s, a ≠ .step s) :
    ∃ n, Quiet n (a.call e) := by
  rcases hsuspends : a.suspends with _ | _
  · obtain ⟨n, hprompt⟩ := prompt_call e hsuspends ha hstep
    exact ⟨n, hprompt.quiet⟩
  cases a with
  | pause count => exact ⟨_, .deferred (quiet_pauses count (prompt_done (i := 0)).quiet)⟩
  | reply text other =>
    simp only [Action.call, Frame.withContext]
    split
    · refine ⟨_, .deferred (.read fun w => (quiet_reply _ text other).andThen (j := 2) ?_)⟩
      intro o
      split
      · exact (prompt_record _).quiet
      · exact .raised _
    · exact ⟨2, .deferred (.raised _)⟩
  | next | nextCaught | nextTwice => cases ha
  | _ => cases hsuspends

/-- Only actions that call the continuation depend on it. -/
theorem call_between (n n' : Process) (ha : a.continues = false) :
    a.call (.between x n) = a.call (.between x n') := by
  cases a with
  | next | nextDropped | nextCaught | nextTwice => cases ha
  | _ => rfl

theorem alike_call (hn : Continues C fs n n') (ha : Allowed C fs a) (hk : Follow C k k') :
    Alike C ((a.call (.between x n)).andThen k) ((a.call (.between x n')).andThen k') := by
  by_cases hstep : ∃ s, a = .step s
  · obtain ⟨s, rfl⟩ := hstep
    exact .call (ha.registered s rfl) hk
  rcases hcontinues : a.continues with _ | _
  · obtain ⟨_, hquiet⟩ := quiet_call (.between x n') hcontinues fun s heq => hstep ⟨s, heq⟩
    rw [call_between n n' hcontinues]
    exact hquiet.alike hk
  cases a with
  | next => exact hn.call hk
  | nextDropped => exact hn.drop (ha.dropped rfl) hk
  | nextCaught =>
    simp only [Action.call, andThen, andThen_andThen]
    refine hn.call fun o o' ho => ?_
    obtain ⟨v, v', rfl, rfl⟩ | ⟨f, rfl, rfl⟩ := ho.cases
    · exact hk _ _ (.refl _)
    · exact (prompt_record (i := 0) _).quiet.alike hk
  | nextTwice =>
    refine .both (hn.call follow_ended) (hn.call follow_ended) fun s s' hs => ?_
    dsimp only
    rw [show Outcome.fault? s.left = _ from hs.left, show Outcome.fault? s.right = _ from hs.right]
    exact (prompt_record (i := 0) _).quiet.alike hk
  | _ => cases hcontinues

theorem alike_runAll (hn : Continues C fs n n') (actions : List Action)
    (h : ∀ a ∈ actions, Allowed C fs a) (hk : Follow C k k') :
    Alike C ((Action.runAll (.between x n) actions).andThen k)
      ((Action.runAll (.between x n') actions).andThen k') := by
  induction actions with
  | nil => exact hk _ _ (.refl _)
  | cons a rest ih =>
    rw [List.forall_mem_cons] at h
    rw [Action.runAll, Action.runAll, followedBy_andThen, followedBy_andThen]
    exact alike_call hn h.1 (hk.ok (ih h.2))

theorem dropping_thenCalled (n q : Process) :
    (n.onCall dropping).thenCalled q = (n.onCall dropping).followedBy q := by
  rw [thenCalled, followedBy, onCall_onCall, onCall_andThen]
  congr
  funext r
  cases r <;> rfl

/-- The result of the call of a plain function is that of its last action. -/
theorem thenCalled_of_suspends (hn : ∀ q, n.thenCalled q = n) (ha : a.suspends = true)
    (q : Process) : (a.call (.between x n)).thenCalled q = a.call (.between x n) := by
  cases a with
  | next => exact hn q
  | nextCaught | nextTwice | pause | reply => rfl
  | _ => cases ha

/-- How a registration ends in a state. -/
def registered (s : UpdateDispatch.Step) (w : World) : Outcome :=
  ((Build.step s).outcome w).1.map fun _ => .null

/-- A registration changes the state at once, whether it fails or not. -/
theorem registering_eq (s : UpdateDispatch.Step) : registering s =
    read fun w => write (fun _ => ((Build.step s).outcome w).2) (ended (registered s w)) := by
  unfold registering building registered
  congr
  funext w
  rcases (Build.step s).outcome w with ⟨f | _, w'⟩ <;> rfl

theorem registering_thenCalled (s : UpdateDispatch.Step) (q : Process) :
    (registering s).thenCalled q = (registering s).followedBy q := by
  rw [registering_eq]
  simp only [thenCalled, followedBy, onCall, andThen]
  congr
  funext w
  cases registered s w <;> rfl

theorem registering_andThen (s : UpdateDispatch.Step) (k : Outcome → Process) :
    (registering s).andThen k =
      read fun w => write (fun _ => ((Build.step s).outcome w).2) (k (registered s w)) := by
  rw [registering_eq]
  simp only [andThen]
  congr
  funext w
  cases registered s w <;> rfl

theorem registering_dropping (s : UpdateDispatch.Step) (k : Outcome → Process) :
    ((registering s).onCall dropping).andThen k = (registering s).andThen k := by
  rw [registering_eq]
  simp only [onCall, andThen]
  congr
  funext w
  unfold registered
  rcases ((Build.step s).outcome w).1 with f | _ <;> rfl

theorem thenCalled_of_not_suspends (hsuspends : a.suspends = false) (e : Frame) (q : Process) :
    (a.call e).thenCalled q = (a.call e).followedBy q := by
  by_cases hstep : ∃ s, a = .step s
  · obtain ⟨s, rfl⟩ := hstep
    exact registering_thenCalled s q
  rcases hcontinues : a.continues with _ | _
  · obtain ⟨_, hprompt⟩ := prompt_call e hsuspends hcontinues fun s heq => hstep ⟨s, heq⟩
    exact hprompt.thenCalled q
  cases a with
  | nextDropped => exact dropping_thenCalled e.proceed q
  | next | nextCaught | nextTwice => cases hsuspends
  | _ => cases hcontinues

theorem alike_callAll (hn : Continues C fs n n') (actions : List Action)
    (h : ∀ a ∈ Action.untilSuspended actions, Allowed C fs a) (hk : Follow C k k') :
    Alike C ((Action.callAll (.between x n) actions).andThen k)
      ((Action.runAll (.between x n') (Action.untilSuspended actions)).andThen k') := by
  induction actions with
  | nil => exact hk _ _ (.refl _)
  | cons a rest ih =>
    rw [Action.untilSuspended] at h ⊢
    rw [Action.callAll]
    rcases ha : a.suspends with _ | _
    · rw [ha, if_neg Bool.false_ne_true, List.forall_mem_cons] at h
      rw [if_neg Bool.false_ne_true, Action.runAll,
        thenCalled_of_not_suspends ha, followedBy_andThen, followedBy_andThen]
      exact alike_call hn h.1 (hk.ok (ih h.2))
    · rw [ha, if_pos rfl] at h
      rw [if_pos rfl, Action.runAll, thenCalled_of_suspends hn.thenCalled ha, followedBy_andThen]
      refine alike_call hn (h a (List.mem_singleton_self a)) fun o o' ho => ?_
      obtain ⟨v, v', rfl, rfl⟩ | ⟨f, rfl, rfl⟩ := ho.cases
      · exact hk _ _ (Outcome.alike_ok v .null)
      · exact hk _ _ (.refl _)

/-- A script does what its body does when it is performed by a suspending function. -/
theorem alike_script (hn : Continues C fs n n') (s : Script)
    (h : ∀ a ∈ s.body, Allowed C fs a) (hk : Follow C k k') :
    Alike C ((s.call (.between x n)).andThen k)
      ((Action.runAll (.between x n') s.body).andThen k') := by
  unfold Script.call
  unfold Script.body at h ⊢
  split
  · next hplain =>
    rw [if_pos hplain] at h
    exact alike_callAll hn s.actions h hk
  · next hplain =>
    rw [if_neg hplain] at h
    exact alike_runAll hn s.actions h hk

end Process
end UpdateDispatch
