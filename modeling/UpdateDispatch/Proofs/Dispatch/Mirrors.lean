import UpdateDispatch.Proofs.Dispatch.Access
import UpdateDispatch.Proofs.Dispatch.Counterparts
import UpdateDispatch.Proofs.Dispatch.KeepsMarks
import UpdateDispatch.Proofs.Dispatch.Variants

/-!
# The same in two variants

Processes that run from two variants of a state do the same, as far as they can: they enter links
that correspond, and they have guards and marks of their own, whose numbers are paired. As in
`Counterparts`, the pairs are only known when they are made, so there are processes that do the same
from two given states on, up to the next place where others may take a turn (`Variants.Now`), and
from any states on that correspond (`Variants.Later`).

What corresponds is left open. A relation of states has to show contexts and marks alike and to keep
to what processes do to both states (`Variants.Views`), which is a `Deed`: the same is noted in
both, and no mark is touched but those of a pair. Besides, one variant may enter a composer that
only it has, where the other one enters what stands in its chain, and the first variant may run
something beside the rest of the chain, where the second one runs the rest alone. A process that
waits for such a link does not look at its value, so it may come to another one.

Every script, every choice and every link does the same in two variants (`Variants.later_script`,
`Variants.later_call`, `Variants.later_entered`), if those do that stand for each other
(`Variants.Faithful`).
-/

namespace UpdateDispatch

/-! ## Deeds -/

/-- What is done to two states at once. The same is noted and logged in both, no marks of the first
state are changed but those of pairs, and a new pair is of the marks that come next. -/
structure Deed (N N₁ : Numbers) (w w' v v' : World) : Prop where
  noted : Noted w w' v v'
  length : w.marks.length ≤ v.marks.length
  spared : ∀ {i}, i < w.marks.length → (∀ i', (i, i') ∉ N.marks) → v.marks[i]? = w.marks[i]?
  made : ∀ {i i'}, (i, i') ∈ N₁.marks →
    (i, i') ∈ N.marks ∨ i = w.marks.length ∧ i' = w'.marks.length ∧ i < v.marks.length

section Deeds

variable {N : Numbers} {w w' v v' : World}

theorem deed_of_marks (h : Noted w w' v v') (hmarks : v.marks = w.marks) : Deed N N w w' v v' where
  noted := h
  length := hmarks ▸ Nat.le_refl _
  spared _ _ := by rw [hmarks]
  made := .inl

theorem deed_record (e : Event) : Deed N N w w' (w.record e) (w'.record e) :=
  deed_of_marks ⟨[e], [], rfl, rfl, (List.append_nil _).symm, (List.append_nil _).symm⟩ rfl

theorem deed_log (n : Notice) : Deed N N w w' (w.log n) (w'.log n) :=
  deed_of_marks ⟨[], [n], (List.append_nil _).symm, (List.append_nil _).symm, rfl, rfl⟩ rfl

theorem deed_setContext (x : Nat) (c : Context) :
    Deed N N w w' (w.setContext x c) (w'.setContext x c) := deed_of_marks (.refl w w') rfl

theorem deed_addContext (c : Context) : Deed N N w w' (w.addContext c) (w'.addContext c) :=
  deed_of_marks (.refl w w') rfl

theorem deed_setMark {i i' : Nat} (hi : (i, i') ∈ N.marks) (b : Bool) :
    Deed N N w w' (w.setMark i b) (w'.setMark i' b) where
  noted := .refl w w'
  length := List.length_set.ge
  spared {j} _ hj := by
    refine List.getElem?_set_ne ?_
    rintro rfl
    exact hj i' hi
  made := .inl

theorem deed_addMark :
    Deed N (N.mark w.marks.length w'.marks.length) w w' w.addMark w'.addMark where
  noted := .refl w w'
  length := List.length_append ▸ Nat.le_add_right _ _
  spared hi _ := List.getElem?_append_left hi
  made hi := (List.mem_cons.mp hi).symm.imp_right fun heq => by
    cases heq
    exact ⟨rfl, rfl, by simp [World.addMark]⟩

end Deeds

namespace Variants

open Process

/-! ## What corresponds -/

/-- A relation of two variants of a state that shows the same to processes, and that they keep when
they do the same to both. -/
structure Views (V : Variants) (R : Numbers → World → World → Prop) : Prop where
  basis : ∀ N, V.Basis (R N)
  client : ∀ {N w w'}, R N w w' → w'.client = w.client
  contexts : ∀ {N w w'}, R N w w' → w'.contexts = w.contexts
  marked : ∀ {N w w' i i'}, R N w w' → (i, i') ∈ N.marks → w'.marked i' = w.marked i
  guard : ∀ {N w w'}, R N w w' → ∀ i i', R (N.guard i i') w w'
  record : ∀ {N w w'}, R N w w' → ∀ e, R N (w.record e) (w'.record e)
  log : ∀ {N w w'}, R N w w' → ∀ n, R N (w.log n) (w'.log n)
  setContext : ∀ {N w w'}, R N w w' → ∀ x c, R N (w.setContext x c) (w'.setContext x c)
  addContext : ∀ {N w w'}, R N w w' → ∀ c, R N (w.addContext c) (w'.addContext c)
  setMark : ∀ {N w w' i i'}, R N w w' → (i, i') ∈ N.marks → ∀ b,
    R N (w.setMark i b) (w'.setMark i' b)
  addMark : ∀ {N w w'}, R N w w' →
    R (N.mark w.marks.length w'.marks.length) w.addMark w'.addMark

/-- The calls of two continuations are of the same form: they are at the end of a chain, they go on
past a boundary, they may be made once, or they fail. -/
inductive Proceeds (N : Numbers) : Process → Process → Prop
  | leaf : Proceeds N leaf leaf
  | resume {i i' : Nat} (hi : (i, i') ∈ N.marks) : Proceeds N (resume i) (resume i')
  | once {i i' : Nat} (hi : (i, i') ∈ N.guards) (rest rest' : Process) :
      Proceeds N (once i rest) (once i' rest')
  | raised (f : Fault) : Proceeds N (raised f) (raised f)

section Processes

variable (V : Variants) (R : Numbers → World → World → Prop)

/-- Processes that do the same from two states on, until others may take a turn. -/
inductive Now : Numbers → World → World → Process → Process → Prop
  | value {N : Numbers} {w w' : World} (v : Json) : Now N w w' (.value v) (.value v)
  | raised {N : Numbers} {w w' : World} (f : Fault) : Now N w w' (.raised f) (.raised f)
  | deferred {N : Numbers} {w w' : World} {p p' : Process}
      (h : ∀ N₁ v v', N.Within N₁ → R N₁ v v' → V.kept v → Now N₁ v v' p p') :
      Now N w w' (.deferred p) (.deferred p')
  | read {N : Numbers} {w w' : World} {k k' : World → Process} (h : Now N w w' (k w) (k' w')) :
      Now N w w' (.read k) (.read k')
  | write {N N₁ : Numbers} {w w' : World} {f f' : World → World} {p p' : Process}
      (hN : N.Within N₁) (hguards : N₁.guards = N.guards) (hR : R N₁ (f w) (f' w'))
      (hdeed : Deed N N₁ w w' (f w) (f' w')) (h : V.kept (f w) → Now N₁ (f w) (f' w') p p') :
      Now N w w' (.write f p) (.write f' p')
  | newGuard {N : Numbers} {w w' : World} {k k' : Nat → Process}
      (h : ∀ i i', Now (N.guard i i') w w' (k i) (k' i')) : Now N w w' (.newGuard k) (.newGuard k')
  | checkGuard {N : Numbers} {w w' : World} {i i' : Nat} {k k' : Bool → Process}
      (hi : (i, i') ∈ N.guards) (h : ∀ used, Now N w w' (k used) (k' used)) :
      Now N w w' (.checkGuard i k) (.checkGuard i' k')
  | useGuard {N : Numbers} {w w' : World} {i i' : Nat} {p p' : Process} (hi : (i, i') ∈ N.guards)
      (h : Now N w w' p p') : Now N w w' (.useGuard i p) (.useGuard i' p')
  | pause {N : Numbers} {w w' : World} {p p' : Process}
      (h : ∀ N₁ v v', N.Within N₁ → R N₁ v v' → V.kept v → Now N₁ v v' p p') :
      Now N w w' (.pause p) (.pause p')
  | race {N : Numbers} {w w' : World} {q q' : Process}
      {k k' : Option Fault → Option Fault → Process} (hs : Proceeds N q q')
      (hq : ∀ N₁ v v', N.Within N₁ → R N₁ v v' → V.kept v → Now N₁ v v' q q')
      (hk : ∀ f g N₁ v v', N.Within N₁ → R N₁ v v' → V.kept v → Now N₁ v v' (k f g) (k' f g)) :
      Now N w w' (.both q q fun s => k (Outcome.fault? s.left) (Outcome.fault? s.right))
        (.both q' q' fun s => k' (Outcome.fault? s.left) (Outcome.fault? s.right))
  | fork {N : Numbers} {w w' : World} {q q' : Process} {i i' x : Nat} {k k' : Settled → Process}
      (hq : ∀ N₁ v v', N.Within N₁ → R N₁ v v' → V.kept v → Now N₁ v v' q q')
      (hi : ∀ N₁ v v', N.Within N₁ → R N₁ v v' → V.kept v →
        Now N₁ v v' (dispatch i x leaf) (dispatch i' x leaf))
      (hk : ∀ s N₁ v v', N.Within N₁ → R N₁ v v' → V.kept v → Now N₁ v v' (k s) (k' s)) :
      Now N w w' (.both q (dispatch i x leaf) k) (.both q' (dispatch i' x leaf) k')
  | enter {N : Numbers} {w w' : World} {l l' : Link} {x : Nat} {next next' : Process}
      {k k' : Outcome → Process} (hl : V.Entered l l') (hs : Proceeds N next next')
      (hnext : ∀ N₁ v v', N.Within N₁ → R N₁ v v' → V.kept v → Now N₁ v v' next next')
      (hk : ∀ o o', Outcome.Alike o o' → ∀ N₁ v v', N.Within N₁ → R N₁ v v' → V.kept v →
        Now N₁ v v' (k o) (k' o')) :
      Now N w w' (.enter l x next k) (.enter l' x next' k')
  | aside {N : Numbers} {w w' : World} {q q' b : Process} {k k' : Outcome → Process}
      (hb : V.beside b)
      (hq : ∀ N₁ v v', N.Within N₁ → R N₁ v v' → V.kept v → Now N₁ v v' q q')
      (hk : ∀ o o', Outcome.Alike o o' → ∀ N₁ v v', N.Within N₁ → R N₁ v v' → V.kept v →
        Now N₁ v v' (k o) (k' o')) :
      Now N w w' (.both q b fun s => (joined s).andThen k) (q'.andThen k')

/-- Processes that do the same from any states on that correspond. -/
def Later (N : Numbers) (p p' : Process) : Prop :=
  ∀ N₁ w w', N.Within N₁ → R N₁ w w' → V.kept w → V.Now R N₁ w w' p p'

/-- What follows something whose value is of no interest does the same. -/
def Follows (N : Numbers) (k k' : Outcome → Process) : Prop :=
  ∀ o o', Outcome.Alike o o' → V.Later R N (k o) (k' o')

/-- Continuations of chains that do the same. -/
structure Handed (N : Numbers) (p p' : Process) : Prop where
  proceeds : Proceeds N p p'
  later : Later V R N p p'

/-- The results of calls that do the same. -/
inductive Replies (N : Numbers) : Reply → Reply → Prop
  | value (v : Json) : Replies N (.value v) (.value v)
  | raised (f : Fault) : Replies N (.raised f) (.raised f)
  | awaitable {p p' : Process} (h : V.Later R N p p') : Replies N (.awaitable p) (.awaitable p')

end Processes

variable {V : Variants} {R : Numbers → World → World → Prop} {N N₁ : Numbers} {w w' : World}
  {p p' q q' next next' : Process} {k k' : Outcome → Process} {x : Nat}

theorem Later.mono (h : V.Later R N p p') (hN : N.Within N₁) : V.Later R N₁ p p' :=
  fun _ _ _ hN₁ hw hkept => h _ _ _ (hN.trans hN₁) hw hkept

theorem Follows.mono (h : V.Follows R N k k') (hN : N.Within N₁) : V.Follows R N₁ k k' :=
  fun o o' ho => (h o o' ho).mono hN

theorem Proceeds.mono (h : Proceeds N p p') (hN : N.Within N₁) : Proceeds N₁ p p' := by
  cases h with
  | leaf => exact .leaf
  | resume hi => exact .resume (hN.marks hi)
  | once hi rest rest' => exact .once (hN.guards hi) rest rest'
  | raised f => exact .raised f

theorem Handed.mono (h : V.Handed R N p p') (hN : N.Within N₁) : V.Handed R N₁ p p' :=
  ⟨h.proceeds.mono hN, h.later.mono hN⟩

section Views

variable (hR : V.Views R)

include hR

/-- The same, and then processes that do the same. -/
theorem Now.andThen (h : V.Now R N w w' p p') (hw : R N w w') (hkept : V.kept w)
    (hk : ∀ o, V.Later R N (k o) (k' o)) : V.Now R N w w' (p.andThen k) (p'.andThen k') := by
  induction h with
  | value v => exact hk _ _ _ _ (.refl _) hw hkept
  | raised f => exact hk _ _ _ _ (.refl _) hw hkept
  | deferred _ ih => exact ih _ _ _ (.refl _) hw hkept hw hkept hk
  | read _ ih => exact .read (ih hw hkept hk)
  | write hN hguards hR hdeed _ ih =>
    exact .write hN hguards hR hdeed fun hkept => ih hkept hR hkept fun o => (hk o).mono hN
  | newGuard _ ih =>
    exact .newGuard fun i i' => ih i i' (hR.guard hw i i') hkept fun o =>
      (hk o).mono Numbers.within_guard
  | checkGuard hi _ ih => exact .checkGuard hi fun used => ih used hw hkept hk
  | useGuard hi _ ih => exact .useGuard hi (ih hw hkept hk)
  | pause _ ih =>
    exact .pause fun _ _ _ hN hv hkept => ih _ _ _ hN hv hkept hv hkept fun o => (hk o).mono hN
  | race hs hq _ _ ih =>
    exact .race hs hq fun f g _ _ _ hN hv hkept =>
      ih f g _ _ _ hN hv hkept hv hkept fun o => (hk o).mono hN
  | fork hq hi _ _ _ ih =>
    exact .fork hq hi fun s _ _ _ hN hv hkept =>
      ih s _ _ _ hN hv hkept hv hkept fun o => (hk o).mono hN
  | enter hl hs hnext _ _ ih =>
    exact .enter hl hs hnext fun o o' ho _ _ _ hN hv hkept =>
      ih o o' ho _ _ _ hN hv hkept hv hkept fun o => (hk o).mono hN
  | aside hb hq _ _ ih =>
    simp only [Process.andThen, andThen_andThen]
    exact .aside hb hq fun o o' ho _ _ _ hN hv hkept =>
      ih o o' ho _ _ _ hN hv hkept hv hkept fun o => (hk o).mono hN

/-- The same call, and then processes that do the same. -/
theorem Now.onCall {k k' : Reply → Process} (h : V.Now R N w w' p p') (hw : R N w w')
    (hkept : V.kept w)
    (hk : ∀ N₁ r r', N.Within N₁ → V.Replies R N₁ r r' → V.Later R N₁ (k r) (k' r')) :
    V.Now R N w w' (p.onCall k) (p'.onCall k') := by
  induction h with
  | value v => exact hk _ _ _ (.refl _) (.value v) _ _ _ (.refl _) hw hkept
  | raised f => exact hk _ _ _ (.refl _) (.raised f) _ _ _ (.refl _) hw hkept
  | deferred h _ => exact hk _ _ _ (.refl _) (.awaitable h) _ _ _ (.refl _) hw hkept
  | read _ ih => exact .read (ih hw hkept hk)
  | write hN hguards hR hdeed _ ih =>
    exact .write hN hguards hR hdeed fun hkept => ih hkept hR hkept fun _ _ _ hN₁ hr =>
      hk _ _ _ (hN.trans hN₁) hr
  | newGuard _ ih =>
    exact .newGuard fun i i' => ih i i' (hR.guard hw i i') hkept fun _ _ _ hN hr =>
      hk _ _ _ (Numbers.within_guard.trans hN) hr
  | checkGuard hi _ ih => exact .checkGuard hi fun used => ih used hw hkept hk
  | useGuard hi _ ih => exact .useGuard hi (ih hw hkept hk)
  | pause _ ih =>
    exact .pause fun _ _ _ hN hv hkept => ih _ _ _ hN hv hkept hv hkept fun _ _ _ hN₁ hr =>
      hk _ _ _ (hN.trans hN₁) hr
  | race hs hq _ _ ih =>
    exact .race hs hq fun f g _ _ _ hN hv hkept =>
      ih f g _ _ _ hN hv hkept hv hkept fun _ _ _ hN₁ hr => hk _ _ _ (hN.trans hN₁) hr
  | fork hq hi _ _ _ ih =>
    exact .fork hq hi fun s _ _ _ hN hv hkept =>
      ih s _ _ _ hN hv hkept hv hkept fun _ _ _ hN₁ hr => hk _ _ _ (hN.trans hN₁) hr
  | enter hl hs hnext _ _ ih =>
    exact .enter hl hs hnext fun o o' ho _ _ _ hN hv hkept =>
      ih o o' ho _ _ _ hN hv hkept hv hkept fun _ _ _ hN₁ hr => hk _ _ _ (hN.trans hN₁) hr
  | aside hb hq _ _ ih =>
    simp only [Process.onCall, andThen_onCall]
    exact .aside hb hq fun o o' ho _ _ _ hN hv hkept =>
      ih o o' ho _ _ _ hN hv hkept hv hkept fun _ _ _ hN₁ hr => hk _ _ _ (hN.trans hN₁) hr

theorem Later.andThen (h : V.Later R N p p') (hk : ∀ o, V.Later R N (k o) (k' o)) :
    V.Later R N (p.andThen k) (p'.andThen k') :=
  fun _ _ _ hN hw hkept => (h _ _ _ hN hw hkept).andThen hR hw hkept fun o => (hk o).mono hN

theorem Later.onCall {k k' : Reply → Process} (h : V.Later R N p p')
    (hk : ∀ N₁ r r', N.Within N₁ → V.Replies R N₁ r r' → V.Later R N₁ (k r) (k' r')) :
    V.Later R N (p.onCall k) (p'.onCall k') :=
  fun _ _ _ hN hw hkept => (h _ _ _ hN hw hkept).onCall hR hw hkept fun _ _ _ hN₁ hr =>
    hk _ _ _ (hN.trans hN₁) hr

/-! ## Forms of processes -/

omit hR in
theorem later_value (v : Json) : V.Later R N (.value v) (.value v) := fun _ _ _ _ _ _ => .value v

omit hR in
theorem later_raised (f : Fault) : V.Later R N (.raised f) (.raised f) :=
  fun _ _ _ _ _ _ => .raised f

omit hR in
theorem later_done : V.Later R N done done := later_value .null

omit hR in
theorem Later.deferred (h : V.Later R N p p') : V.Later R N (.deferred p) (.deferred p') :=
  fun _ _ _ hN _ _ => .deferred fun _ _ _ hN₁ hv hkept => h _ _ _ (hN.trans hN₁) hv hkept

omit hR in
theorem Later.pause (h : V.Later R N p p') : V.Later R N (.pause p) (.pause p') :=
  fun _ _ _ hN _ _ => .pause fun _ _ _ hN₁ hv hkept => h _ _ _ (hN.trans hN₁) hv hkept

omit hR in
/-- A continuation that is called twice at once. -/
theorem later_race {k k' : Option Fault → Option Fault → Process} (hq : V.Handed R N q q')
    (hk : ∀ f g, V.Later R N (k f g) (k' f g)) :
    V.Later R N (.both q q fun s => k (Outcome.fault? s.left) (Outcome.fault? s.right))
      (.both q' q' fun s => k' (Outcome.fault? s.left) (Outcome.fault? s.right)) :=
  fun _ _ _ hN _ _ => .race (hq.proceeds.mono hN) (hq.later.mono hN) fun f g => (hk f g).mono hN

omit hR in
theorem Later.fork {i i' : Nat} {k k' : Settled → Process} (hq : V.Later R N q q')
    (hi : V.Later R N (dispatch i x leaf) (dispatch i' x leaf))
    (hk : ∀ s, V.Later R N (k s) (k' s)) :
    V.Later R N (.both q (dispatch i x leaf) k) (.both q' (dispatch i' x leaf) k') :=
  fun _ _ _ hN _ _ => .fork (hq.mono hN) (hi.mono hN) fun s => (hk s).mono hN

omit hR in
theorem later_enter {l l' : Link} (hl : V.Entered l l') (hnext : V.Handed R N next next')
    (hk : V.Follows R N k k') : V.Later R N (.enter l x next k) (.enter l' x next' k') :=
  fun _ _ _ hN _ _ => .enter hl (hnext.proceeds.mono hN) (hnext.later.mono hN) (hk.mono hN)

omit hR in
/-- What follows a look at the states does the same in both. -/
theorem later_read {k k' : World → Process}
    (h : ∀ N₁ w w', N.Within N₁ → R N₁ w w' → V.kept w → V.Later R N₁ (k w) (k' w')) :
    V.Later R N (.read k) (.read k') :=
  fun _ _ _ hN hw hkept => .read (h _ _ _ hN hw hkept _ _ _ (.refl _) hw hkept)

omit hR in
/-- Both states are changed, and then the processes do the same. -/
theorem Later.write {f f' : World → World} (h : V.Later R N p p')
    (hf : ∀ N₁ w w', N.Within N₁ → R N₁ w w' →
      R N₁ (f w) (f' w') ∧ Deed N₁ N₁ w w' (f w) (f' w')) :
    V.Later R N (.write f p) (.write f' p') := fun _ _ _ hN hw _ =>
  have ⟨hR, hdeed⟩ := hf _ _ _ hN hw
  .write (.refl _) rfl hR hdeed fun hkept => h _ _ _ hN hR hkept

theorem Later.followedBy (h : V.Later R N p p') (hq : V.Later R N q q') :
    V.Later R N (p.followedBy q) (p'.followedBy q') := h.andThen hR fun o => by
  cases o with
  | ok v => exact hq
  | error f => exact later_raised f

theorem Later.ignored (h : V.Later R N p p') : V.Later R N p.ignored p'.ignored :=
  h.followedBy hR later_done

theorem Later.thenCalled (h : V.Later R N p p') (hq : V.Later R N q q') :
    V.Later R N (p.thenCalled q) (p'.thenCalled q') := h.onCall hR fun _ r r' hN hr => by
  cases hr with
  | value v => exact hq.mono hN
  | raised f => exact later_raised f
  | awaitable h => exact h.deferred

theorem Later.awaited (h : V.Later R N p p') : V.Later R N p.awaited p'.awaited :=
  h.onCall hR fun _ r r' _ hr => by
    cases hr with
    | value v => exact (later_value v).deferred
    | raised f => exact later_raised f
    | awaitable h => exact h.deferred

theorem Later.record (h : V.Later R N p p') (e : Event) :
    V.Later R N (record e p) (record e p') :=
  h.write fun _ _ _ _ hw => ⟨hR.record hw e, deed_record e⟩

theorem Later.log (h : V.Later R N p p') (n : Notice) : V.Later R N (log n p) (log n p') :=
  h.write fun _ _ _ _ hw => ⟨hR.log hw n, deed_log n⟩

theorem later_record (e : Event) : V.Later R N (Process.record e) (Process.record e) :=
  later_done.record hR e

theorem Later.setContext (h : V.Later R N p p') (c : Context) :
    V.Later R N (.write (World.setContext x c) p) (.write (World.setContext x c) p') :=
  h.write fun _ _ _ _ hw => ⟨hR.setContext hw x c, deed_setContext x c⟩

omit hR in
/-- What is built in two variants does the same if its outcomes correspond. -/
theorem later_building {α α' : Type} {S : α → α' → Prop} {b : Build α} {b' : Build α'}
    {k : α → Process} {k' : α' → Process}
    (hbuilt : ∀ N₁ w w', N.Within N₁ → R N₁ w w' → V.kept w →
      Ends S (b.outcome w).1 (b'.outcome w').1 ∧ R N₁ (b.outcome w).2 (b'.outcome w').2 ∧
        Deed N₁ N₁ w w' (b.outcome w).2 (b'.outcome w').2)
    (hk : ∀ a a', S a a' → V.Later R N (k a) (k' a')) :
    V.Later R N (building b k) (building b' k') := by
  intro N₁ w w' hN hw hkept
  obtain ⟨hends, hrest, hdeed⟩ := hbuilt N₁ w w' hN hw hkept
  refine .read ?_
  rcases hb : b.outcome w with ⟨e, v⟩
  rcases hb' : b'.outcome w' with ⟨e', v'⟩
  rw [hb, hb'] at hends hrest hdeed
  cases hends with
  | ok ha => exact .write (.refl _) rfl hrest hdeed fun hkept => hk _ _ ha _ _ _ hN hrest hkept
  | error f => exact .write (.refl _) rfl hrest hdeed fun _ => .raised f

omit hR in
/-- What is noted at the same time in two states, while their composers and registers change. -/
theorem basis_noted (w w' : World) : V.Basis fun v v' => V.Stores v v' ∧ Noted w w' v v' where
  stores h := h.1
  accessed h name := by
    obtain ⟨hstores, es, ns, hes, hes', hns, hns'⟩ := h
    refine ⟨{ hstores with }, es ++ [.accessed name], ns, ?_, ?_, hns, hns'⟩
    · rw [World.record, hes, List.append_assoc]
    · rw [World.record, hes', List.append_assoc]
  setComposers h _ _ hstores := ⟨hstores, h.2⟩
  setRegisters h _ _ hstores := ⟨hstores, h.2⟩

/-- What is built in the same way in two variants. -/
theorem later_built {α α' : Type} {S : α → α' → Prop} {b : Build α} {b' : Build α'}
    {k : α → Process} {k' : α' → Process}
    (hb : ∀ Q : World → World → Prop, V.Basis Q → Builds Q S b b') (hmarks : b.KeepsMarks)
    (hk : ∀ a a', S a a' → V.Later R N (k a) (k' a')) :
    V.Later R N (building b k) (building b' k') :=
  later_building (fun N₁ w w' _ hw _ =>
    have ⟨hends, hrest⟩ := hb _ (hR.basis N₁) w w' hw
    have hnoted := (hb _ (basis_noted w w') w w' ⟨(hR.basis N₁).stores hw, .refl w w'⟩).2.2
    ⟨hends, hrest, deed_of_marks hnoted (hmarks w)⟩) hk

theorem context_eq (hw : R N w w') (x : Nat) : w'.context x = w.context x := by
  rw [World.context, World.context, hR.contexts hw]

/-! ## Scripts -/

theorem acting_later : Acting {} (V.Handed R N) (V.Later R N) where
  value := later_value
  raised hf := hf.eq id ▸ later_raised _
  pause := .pause
  record he _ hp := he.eq id ▸ hp.record hR _
  context := by
    rintro x _ k k' rfl hk
    exact later_read fun _ w w' hN hw _ => (hk w w' (context_eq hR hw x)).mono hN
  setContext := by
    rintro x _ p p' rfl c hp
    exact hp.setContext hR c
  deferred := .deferred
  log hn _ hp := hn.eq id ▸ hp.log hR _
  client hk := later_read fun _ w w' hN hw _ => (hk w w' (hR.client hw)).mono hN
  andThen hp hk := hp.andThen hR fun o => hk o o (.refl o)
  thenCalled := .thenCalled hR
  dropping hp := hp.onCall hR fun _ r r' _ hr => by
    cases hr with
    | raised f => exact later_raised f
    | value v | awaitable hp => exact later_done
  registering _ :=
    later_built hR (fun _ hQ => builds_step hQ _) (Build.keepsMarks_step _) fun _ _ _ => later_done
  next := Handed.later
  missing f := ⟨.raised f, later_raised f⟩
  twice hp := later_race hp fun f g => later_record hR (.race f g)

/-- A script does the same in two variants. -/
theorem later_script {e e' : Frame} (h : e.Same Eq (V.Handed R N) e') (s : Script) :
    V.Later R N (s.call e) (s.call e') := (acting_later hR).script h fun a _ => a.admitted

/-! ## Choices -/

theorem later_ask (p : Probe Condition) (x : Nat) {k k' : Json → Process}
    (hk : ∀ v, V.Later R N (k v) (k' v)) : V.Later R N (p.ask x k) (p.ask x k') :=
  (acting_later hR).ask p.admitted rfl hk

omit hR in
theorem handlerFor_same {key : Json} {handlers handlers' : List (Json × Option (List Middleware))}
    (h : List.Forall₂ (Handler.Same V.Composers) handlers handlers') :
    Option.Rel V.Items (handlerFor key handlers) (handlerFor key handlers') := by
  induction h with
  | nil => exact .none
  | cons he _ ih =>
    cases he with
    | none k =>
      unfold handlerFor
      split
      · exact .none
      · exact ih
    | some k hmw =>
      unfold handlerFor
      split
      · exact .some hmw
      · exact ih

omit hR in
/-- Choices that are the same build what corresponds, without touching marks. -/
theorem paired_same {c c' : Choice} (hc : Choice.Same V.Composers c c') :
    c.Paired {} (fun b b' => (∀ Q : World → World → Prop, V.Basis Q → Builds Q V.Items b b') ∧
      b.KeepsMarks) c' := by
  cases hc with
  | branch p negated hyes hno =>
    exact .branch p.admitted ⟨fun _ _ => builds_pure hyes, Build.keepsMarks_pure _⟩
      ⟨fun _ _ => builds_pure hno, Build.keepsMarks_pure _⟩
  | route router hhandlers hfallback =>
    refine .route router.admitted ⟨fun _ _ => builds_pure hfallback, Build.keepsMarks_pure _⟩
      fun key => ⟨fun _ _ => builds_pure ?_, Build.keepsMarks_pure _⟩
    have hmw : Option.Rel V.Items (handlerFor key _) (handlerFor key _) :=
      handlerFor_same hhandlers
    generalize handlerFor key _ = mw at hmw
    generalize handlerFor key _ = mw' at hmw
    cases hmw with
    | none => exact hfallback
    | some hmw => exact hmw
  | table factory specs default =>
    exact .table factory.admitted fun _ =>
      ⟨fun _ hQ => builds_spec hQ _, Build.keepsMarks_spec _⟩

/-! ## Links -/

omit hR in
theorem follows_ended : V.Follows R N (fun o => (ended o).ignored) fun o => (ended o).ignored := by
  intro o o' ho
  rcases ho.cases with ⟨v, v', rfl, rfl⟩ | ⟨f, rfl, rfl⟩
  · exact later_done
  · exact later_raised f

omit hR in
theorem Follows.ignoring (h : V.Follows R N k k') :
    V.Follows R N (Process.ignoring k) (Process.ignoring k') := by
  intro o o' ho
  rcases ho.cases with ⟨v, v', rfl, rfl⟩ | ⟨f, rfl, rfl⟩
  · exact h _ _ (.refl _)
  · exact h _ _ (.refl _)

omit hR in
theorem handed_leaf : V.Handed R N leaf leaf := ⟨.leaf, later_done.deferred⟩

theorem later_dispatch {id id' : Nat} (hid : V.Composers id id') (x : Nat)
    (hnext : V.Handed R N next next') :
    V.Later R N (dispatch id x next) (dispatch id' x next') := by
  refine Later.deferred (later_read fun N₁ w w' hN hw _ => ?_)
  exact later_enter (.chains (((hR.basis N₁).stores hw).chain hid)) (hnext.mono hN) follows_ended

theorem Later.once {i i' : Nat} (h : V.Later R N p p') (hi : (i, i') ∈ N.guards) :
    V.Handed R N (once i p) (once i' p') where
  proceeds := .once hi p p'
  later _ _ _ hN hw hkept := .checkGuard (hN.guards hi) fun used => by
    cases used with
    | true => exact .raised _
    | false => exact .useGuard (hN.guards hi) (h.awaited hR _ _ _ hN hw hkept)

/-- A new guard, and then processes that do the same. -/
theorem later_newGuard {k k' : Nat → Process}
    (h : ∀ N₁ i i', N.Within N₁ → (i, i') ∈ N₁.guards → V.Later R N₁ (k i) (k' i')) :
    V.Later R N (.newGuard k) (.newGuard k') := fun _ _ _ hN hw hkept =>
  .newGuard fun i i' => h _ i i' (hN.trans Numbers.within_guard) List.mem_cons_self _ _ _ (.refl _)
    (hR.guard hw i i') hkept

theorem later_concat {first first' second second' : Nat → Process → Process}
    (hfirst : ∀ {M n n'}, V.Handed R M n n' → V.Later R M (first x n) (first' x n'))
    (hsecond : V.Later R N (second x next) (second' x next')) :
    V.Later R N (Process.concat first second x next) (Process.concat first' second' x next') :=
  .deferred <| later_newGuard hR fun _ _ _ hN hi =>
    (hfirst ((hsecond.mono hN).once hR hi)).ignored hR

theorem later_joined (s : Settled) : V.Later R N (joined s) (joined s) :=
  (acting_later hR).joined (fun _ _ => trivial) (.refl s)

theorem later_fork {side side' : Nat} (hside : V.Composers side side') (x : Nat)
    (hnext : V.Later R N next next') :
    V.Later R N (Process.fork side x next) (Process.fork side' x next') := by
  refine hnext.onCall hR fun N₁ r r' _ hr => ?_
  have hbranch : V.Later R N₁ (dispatch side x leaf) (dispatch side' x leaf) :=
    later_dispatch hR hside x handed_leaf
  cases hr with
  | raised f => exact later_raised f
  | value v => exact .fork (later_value v) hbranch (later_joined hR)
  | awaitable hrest => exact .fork hrest hbranch (later_joined hR)

theorem handed_resume {i i' : Nat} (hi : (i, i') ∈ N.marks) :
    V.Handed R N (resume i) (resume i') where
  proceeds := .resume hi
  later := .deferred <| later_done.write fun _ _ _ hN hw =>
    ⟨hR.setMark hw (hN.marks hi) true, deed_setMark (hN.marks hi) true⟩

theorem later_withMark {k k' : Nat → Process}
    (hk : ∀ N₁ i i', N.Within N₁ → (i, i') ∈ N₁.marks → V.Later R N₁ (k i) (k' i')) :
    V.Later R N (withMark k) (withMark k') := fun _ w w' hN hw _ =>
  have hmarks := hR.addMark hw
  .read <| .write Numbers.within_mark rfl hmarks deed_addMark fun hkept =>
    hk _ w.marks.length w'.marks.length (hN.trans Numbers.within_mark) List.mem_cons_self _ _ _
      (.refl _) hmarks hkept

theorem later_boundary {inner inner' : Nat} (hinner : V.Composers inner inner') (handler : Script)
    (x : Nat) (hnext : V.Later R N next next') :
    V.Later R N (Process.boundary inner handler x next)
      (Process.boundary inner' handler x next') := by
  refine later_withMark hR fun N₁ i i' hN hi => ?_
  replace hnext := hnext.mono hN
  have hrest : V.Later R N₁ (restIfMarked i next) (restIfMarked i' next') := by
    refine later_read fun _ w w' hN hw _ => ?_
    rw [hR.marked hw (hN.marks hi)]
    split
    · exact (hnext.ignored hR).mono hN
    · exact later_done
  have hresume : V.Handed R N₁ (resume i) (resume i') := handed_resume hR hi
  exact (later_dispatch hR hinner x hresume).andThen hR fun o =>
    (acting_later hR).afterChain i i' next next' (fun _ _ => trivial) (fun a _ => a.admitted) rfl
      hresume (.write · fun _ _ _ hN hw =>
        ⟨hR.setMark hw (hN.marks hi) false, deed_setMark (hN.marks hi) false⟩) hrest (.refl o)

/-- A link does the same in two variants. -/
theorem later_call : {l l' : Link} → Link.Same V.Composers l l' → {N : Numbers} →
    {next next' : Process} → V.Handed R N next next' →
      V.Later R N (l.call x next) (l'.call x next')
  | .pass, _, .pass, _, _, _, hnext => hnext.later
  | .script s, _, .script _, _, _, _, hnext =>
    later_script hR ⟨.some rfl, .some hnext, .none⟩ s
  | .composer _, _, .composer hi, _, _, _, hnext => later_dispatch hR hi x hnext
  | .concat _ _, _, .concat h h', _, _, _, hnext =>
    later_concat hR (fun hn => later_call h hn) (later_call h' hnext)
  | .lazily _, _, .lazily hc, _, _, _, hnext =>
    .deferred <| (acting_later hR).pick (paired_same hc) rfl _ _ fun _ _ ⟨hb, hmarks⟩ =>
      later_built hR
      (fun _ hQ => (hb _ hQ).bind fun _ _ => builds_compose hQ)
      (hmarks.bind Build.keepsMarks_compose)
      fun _ _ hl => later_enter (.chains (.same hl)) hnext follows_ended
  | .fork _, _, .fork hi, _, _, _, hnext => .deferred (later_fork hR hi x hnext.later)
  | .boundary _ handler, _, .boundary hi _, _, _, _, hnext =>
    .deferred (later_boundary hR hi handler x hnext.later)

/-! ## Chains of composers -/

omit hR in
variable (V R) in
/-- Links that stand for each other do the same, if nobody looks at their values. -/
def Faithful : Prop := ∀ {l l' : Link}, V.alike l l' → ∀ {N : Numbers} {x : Nat}
  {next next' : Process} {k k' : Outcome → Process}, V.Handed R N next next' → V.Follows R N k k' →
    V.Later R N ((l.call x next).andThen k) ((l'.call x next').andThen k')

/-- What is entered does the same in two variants. -/
theorem later_entered (hV : V.Faithful R) {l l' : Link} (h : V.Chains l l')
    (hnext : V.Handed R N next next') (hk : V.Follows R N k k') :
    V.Later R N ((l.call x next).andThen k) ((l'.call x next').andThen k') := by
  induction h generalizing N next next' k k' with
  | same h => exact (later_call hR h hnext).andThen hR fun o => hk o o (.refl o)
  | alike h => exact hV h hnext hk
  | concat _ h' ih =>
    simp only [Link.call, Process.concat, Process.andThen, ignored_andThen]
    refine later_newGuard hR fun _ _ _ hN hi => ih ?_ (hk.mono hN).ignoring
    exact ((later_call hR h' hnext).mono hN).once hR hi

/-! ## Updates -/

theorem later_withBot {id id' : Nat} (hid : V.Composers id id') {member : String}
    {k k' : World → BotState → Process}
    (hk : ∀ N₁ w w' b b', N.Within N₁ → R N₁ w w' → BotState.Alike b b' →
      V.Later R N₁ (k w b) (k' w' b')) :
    V.Later R N (Bot.withBot id member k) (Bot.withBot id' member k') := by
  refine later_read fun N₁ w w' hN hw _ => ?_
  have hbot := ((hR.basis N₁).stores hw).bot? hid
  generalize w.bot? id = b at hbot
  generalize w'.bot? id' = b' at hbot
  cases hbot with
  | none => exact later_raised _
  | some hb => exact hk N₁ w w' _ _ hN hw hb

/-- A bot handles an update in the same way in two variants. -/
theorem later_handleUpdate {id id' : Nat} (hid : V.Composers id id') (update : Json) :
    V.Later R N (Bot.handleUpdate id update) (Bot.handleUpdate id' update) := by
  refine later_withBot hR hid fun N₁ w w' b b' _ hw hb => ?_
  rw [hb.identity]
  split
  · exact later_raised _
  split
  · exact later_raised _
  refine Later.log hR ?_ _
  rw [hb.contextThrows, hR.contexts hw]
  split
  · exact later_raised _
  refine Later.write (Later.andThen hR ?_ fun o => ?_) fun _ _ _ _ hw =>
    ⟨hR.addContext hw _, deed_addContext _⟩
  · exact (later_dispatch hR hid _ handed_leaf).ignored hR
  · cases o with
    | ok v => exact later_value _
    | error f => exact (later_raised _).log hR _

theorem later_report {id id' : Nat} (hid : V.Composers id id') (failure : Fault) :
    V.Later R N (Bot.report id failure) (Bot.report id' failure) := by
  refine later_withBot hR hid fun N₁ w w' b b' _ hw hb => ?_
  rw [hb.handler]
  split
  · exact later_script hR ⟨rel_self fun _ _ => rfl, .none, .some (.refl failure)⟩ _
  · refine Later.deferred ?_
    exact (acting_later hR).defaultHandler (fun _ _ => trivial) (.refl failure)
      (rel_self fun _ _ => rfl)

/-- A bot handles a batch in the same way in two variants. -/
theorem later_handleUpdates {id id' : Nat} (hid : V.Composers id id') (updates : List Json) :
    V.Later R N (Bot.handleUpdates id updates) (Bot.handleUpdates id' updates) :=
  (acting_later hR).handleUpdates (fun _ => trivial) (fun hx => hx) id id'
    (later_handleUpdate hR hid) (later_report hR hid) updates

end Views

end Variants

end UpdateDispatch
