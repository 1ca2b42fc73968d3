import UpdateDispatch.Proofs.Dispatch.Steady
import UpdateDispatch.Proofs.Dispatch.Likeness

/-!
# One dispatch among others and alone

A dispatch that runs among others gets other numbers for its guards, marks and joins than it gets
alone. `Numbers` pairs them. Which pairs there are depends on the turns that the others take, so
they are not known when the dispatch starts: `Process.Later` holds of two processes that do the same
from any states on that correspond (`Sees`), with all the pairs so far and any more, and
`Process.Now` of two that do the same from two given states, up to the next place where others may
take a turn.

All that a process does to the state is an `Effect`, and it does the same to both states. The
dispatch of the context `x` changes no other context and no mark but its own, so all others see what
they saw before (`Effect.other`). Every script, choice and link of a steady state does the same
(`Process.later_script`, `Process.later_call`).
-/

namespace UpdateDispatch

/-! ## Numbers -/

/-- The numbers of what one dispatch has made, in two runs. -/
structure Numbers where
  guards : List (Nat × Nat) := []
  marks : List (Nat × Nat) := []
  joins : List (Nat × Nat) := []

namespace Numbers

/-- All pairs are among those of another dispatch, or of a later time. -/
structure Within (N N' : Numbers) : Prop where
  guards : N.guards ⊆ N'.guards
  marks : N.marks ⊆ N'.marks
  joins : N.joins ⊆ N'.joins

theorem Within.refl (N : Numbers) : N.Within N :=
  ⟨List.Subset.refl _, List.Subset.refl _, List.Subset.refl _⟩

theorem Within.trans {N N' N'' : Numbers} (h : N.Within N') (h' : N'.Within N'') :
    N.Within N'' :=
  ⟨List.Subset.trans h.guards h'.guards, List.Subset.trans h.marks h'.marks,
    List.Subset.trans h.joins h'.joins⟩

/-- One more pair of guards. -/
def guard (i i' : Nat) (N : Numbers) : Numbers := { N with guards := (i, i') :: N.guards }

/-- One more pair of marks. -/
def mark (i i' : Nat) (N : Numbers) : Numbers := { N with marks := (i, i') :: N.marks }

/-- One more pair of joins. -/
def join (j j' : Nat) (N : Numbers) : Numbers := { N with joins := (j, j') :: N.joins }

variable {N : Numbers} {i i' : Nat}

theorem within_guard : N.Within (N.guard i i') :=
  ⟨List.subset_cons_self _ _, List.Subset.refl _, List.Subset.refl _⟩

theorem within_mark : N.Within (N.mark i i') :=
  ⟨List.Subset.refl _, List.subset_cons_self _ _, List.Subset.refl _⟩

theorem within_join : N.Within (N.join i i') :=
  ⟨List.Subset.refl _, List.Subset.refl _, List.subset_cons_self _ _⟩

end Numbers

/-- What one dispatch has made in two runs: `R` holds of the items at the numbers of each pair, and
no number is in two pairs. -/
structure Counterparts {α β : Type} (R : α → β → Prop) (pairs : List (Nat × Nat)) (as : List α)
    (bs : List β) : Prop where
  items : ∀ {i i'}, (i, i') ∈ pairs → ∃ a b, as[i]? = some a ∧ bs[i']? = some b ∧ R a b
  single : ∀ {i i' j j'}, (i, i') ∈ pairs → (j, j') ∈ pairs → (i = j ↔ i' = j')

namespace Counterparts

variable {α β : Type} {R S : α → β → Prop} {pairs : List (Nat × Nat)} {as : List α} {bs : List β}
  {i i' : Nat} {a : α} {b : β}

theorem nil (R : α → β → Prop) (as : List α) (bs : List β) : Counterparts R [] as bs := by
  constructor <;> simp

theorem imp (h : Counterparts R pairs as bs) (himp : ∀ {a b}, R a b → S a b) :
    Counterparts S pairs as bs := by
  refine ⟨fun hi => ?_, h.single⟩
  obtain ⟨a, b, ha, hb, hab⟩ := h.items hi
  exact ⟨a, b, ha, hb, himp hab⟩

theorem lt (h : Counterparts R pairs as bs) (hi : (i, i') ∈ pairs) :
    i < as.length ∧ i' < bs.length := by
  obtain ⟨a, b, ha, hb, -⟩ := h.items hi
  exact ⟨(List.getElem?_eq_some_iff.mp ha).1, (List.getElem?_eq_some_iff.mp hb).1⟩

/-- Both items of a pair are replaced. -/
theorem set (h : Counterparts R pairs as bs) (hi : (i, i') ∈ pairs) (hab : R a b) :
    Counterparts R pairs (as.set i a) (bs.set i' b) := by
  refine ⟨fun {j j'} hj => ?_, h.single⟩
  obtain ⟨hlt, hlt'⟩ := h.lt hi
  by_cases heq : i = j
  · obtain rfl := heq
    obtain rfl := (h.single hi hj).mp rfl
    exact ⟨a, b, List.getElem?_set_self hlt, List.getElem?_set_self hlt', hab⟩
  · rw [List.getElem?_set_ne heq, List.getElem?_set_ne (mt (h.single hi hj).mpr heq)]
    exact h.items hj

/-- Both runs have one more item, and its numbers are a new pair. -/
theorem add (h : Counterparts R pairs as bs) (hab : R a b) :
    Counterparts R ((as.length, bs.length) :: pairs) (as ++ [a]) (bs ++ [b]) := by
  have old : ∀ {j j'}, (j, j') ∈ pairs → j ≠ as.length ∧ j' ≠ bs.length := fun hj =>
    ⟨(h.lt hj).1.ne, (h.lt hj).2.ne⟩
  refine ⟨fun {j j'} hj => ?_, fun {j j' l l'} hj hl => ?_⟩
  · rcases List.mem_cons.mp hj with heq | hj
    · cases heq
      exact ⟨a, b, List.getElem?_concat_length, List.getElem?_concat_length, hab⟩
    · obtain ⟨hlt, hlt'⟩ := h.lt hj
      rw [List.getElem?_append_left hlt, List.getElem?_append_left hlt']
      exact h.items hj
  · rcases List.mem_cons.mp hj with heq | hj <;> rcases List.mem_cons.mp hl with heq' | hl
    · cases heq
      cases heq'
      exact ⟨fun _ => rfl, fun _ => rfl⟩
    · cases heq
      exact ⟨fun heq => absurd heq.symm (old hl).1, fun heq => absurd heq.symm (old hl).2⟩
    · cases heq'
      exact ⟨fun heq => absurd heq (old hj).1, fun heq => absurd heq (old hj).2⟩
    · exact h.single hj hl

/-- The first run has other items at numbers that are in no pair. -/
theorem left {cs : List α} (h : Counterparts R pairs as bs)
    (hcs : ∀ {i i'}, (i, i') ∈ pairs → cs[i]? = as[i]?) : Counterparts R pairs cs bs := by
  refine ⟨fun hj => ?_, h.single⟩
  rw [hcs hj]
  exact h.items hj

end Counterparts

/-- Flags that are the same in both runs. -/
abbrev Flags : List (Nat × Nat) → List Bool → List Bool → Prop := Counterparts Eq

theorem Flags.getD {pairs : List (Nat × Nat)} {as bs : List Bool} {i i' : Nat}
    (h : Flags pairs as bs) (hi : (i, i') ∈ pairs) : bs[i']?.getD false = as[i]?.getD false := by
  obtain ⟨a, b, ha, hb, rfl⟩ := h.items hi
  rw [ha, hb]

/-! ## States -/

/-- States in which the dispatch of the context `x` sees the same. -/
structure Sees (x : Nat) (N : Numbers) (w w' : World) : Prop where
  steady : w.Steady
  composers : w'.composers = w.composers
  registers : w'.registers = w.registers
  client : w'.client = w.client
  context : w'.contexts[x]? = w.contexts[x]?
  marks : Flags N.marks w.marks w'.marks

theorem World.Steady.congr {w v : World} (h : w.Steady) (hcomposers : v.composers = w.composers)
    (hregisters : v.registers = w.registers) : v.Steady :=
  ⟨hcomposers ▸ h.chains, hcomposers ▸ h.handlers, hregisters ▸ h.registers⟩

/-- What a dispatch of the context `x` does to both states. -/
inductive Effect (x : Nat) (N : Numbers) (w w' : World) : Numbers → World → World → Prop
  | events (es : List Event) :
      Effect x N w w' N { w with events := w.events ++ es } { w' with events := w'.events ++ es }
  | log (n : Notice) : Effect x N w w' N (w.log n) (w'.log n)
  | setContext (c : Context) : Effect x N w w' N (w.setContext x c) (w'.setContext x c)
  | setMark {i i' : Nat} (hi : (i, i') ∈ N.marks) (b : Bool) :
      Effect x N w w' N (w.setMark i b) (w'.setMark i' b)
  | addMark : Effect x N w w' (N.mark w.marks.length w'.marks.length) w.addMark w'.addMark

section States

variable {x y : Nat} {N N' M : Numbers} {w w' v v' u : World}

theorem Sees.of_marks (h : Sees x N w w') (hmarks : N'.marks = N.marks) : Sees x N' w w' :=
  { h with marks := hmarks ▸ h.marks }

theorem Sees.chain (h : Sees x N w w') (id : Nat) : w'.chain id = w.chain id := by
  rw [World.chain, World.chain, h.composers]

theorem Sees.context_eq (h : Sees x N w w') : w'.context x = w.context x := by
  rw [World.context, World.context, h.context]

theorem Sees.marked (h : Sees x N w w') {i i' : Nat} (hi : (i, i') ∈ N.marks) :
    w'.marked i' = w.marked i := Flags.getD h.marks hi

theorem getElem?_set_congr {α : Type} {as bs : List α} (h : bs[x]? = as[x]?) (a : α) :
    (bs.set x a)[x]? = (as.set x a)[x]? := by
  rw [List.getElem?_set_self', List.getElem?_set_self', h]

/-- An effect registers nothing. -/
theorem Effect.steady (he : Effect x N w w' N' v v') (h : w.Steady) : v.Steady := by
  cases he <;> exact h.congr rfl rfl

/-- An effect is the same in both states. -/
theorem Effect.sees (he : Effect x N w w' N' v v') (h : Sees x N w w') : Sees x N' v v' := by
  have hsteady : v.Steady := he.steady h.steady
  cases he with
  | events es => exact { h with steady := hsteady }
  | log n => exact { h with steady := hsteady }
  | setContext c =>
    exact { h with steady := hsteady, context := getElem?_set_congr h.context c }
  | setMark hi b => exact { h with steady := hsteady, marks := h.marks.set hi rfl }
  | addMark => exact { h with steady := hsteady, marks := h.marks.add rfl }

theorem Effect.within (he : Effect x N w w' N' v v') : N.Within N' := by
  cases he with
  | addMark => exact Numbers.within_mark
  | _ => exact .refl _

/-- The dispatch of another context, with marks of its own, sees nothing of an effect. -/
theorem Effect.other (he : Effect x N w w' N' v v') (hxy : y ≠ x)
    (apart : ∀ {i i' j'}, (i, i') ∈ N.marks → (i, j') ∉ M.marks) (h : Sees y M w u) :
    Sees y M v u := by
  have hsteady : v.Steady := he.steady h.steady
  cases he with
  | events es => exact { h with steady := hsteady }
  | log n => exact { h with steady := hsteady }
  | setContext c =>
    exact { h with
      steady := hsteady
      context := h.context.trans (List.getElem?_set_ne hxy.symm).symm }
  | @setMark i i' hi b =>
    refine { h with steady := hsteady, marks := h.marks.left fun {j j'} hj => ?_ }
    refine List.getElem?_set_ne ?_
    rintro rfl
    exact apart hi hj
  | addMark =>
    refine { h with steady := hsteady, marks := h.marks.left fun hj => ?_ }
    exact List.getElem?_append_left (h.marks.lt hj).1

/-- Marks of an effect are old ones, or new. -/
theorem Effect.marks (he : Effect x N w w' N' v v') {i i' : Nat} (hi : (i, i') ∈ N'.marks) :
    (i, i') ∈ N.marks ∨ w.marks.length ≤ i := by
  cases he with
  | addMark =>
    rcases List.mem_cons.mp hi with heq | hi
    · cases heq
      exact .inr (Nat.le_refl _)
    · exact .inl hi
  | _ => exact .inl hi

theorem Effect.guards_eq (he : Effect x N w w' N' v v') : N'.guards = N.guards := by
  cases he <;> rfl

theorem Effect.joins_eq (he : Effect x N w w' N' v v') : N'.joins = N.joins := by
  cases he <;> rfl

/-- The same is noted from two states on, and the same lines are logged. -/
def Noted (w w' v v' : World) : Prop :=
  ∃ es ns, v.events = w.events ++ es ∧ v'.events = w'.events ++ es ∧
    v.notices = w.notices ++ ns ∧ v'.notices = w'.notices ++ ns

theorem Noted.refl (w w' : World) : Noted w w' w w' :=
  ⟨[], [], (List.append_nil _).symm, (List.append_nil _).symm, (List.append_nil _).symm,
    (List.append_nil _).symm⟩

theorem Effect.noted (he : Effect x N w w' N' v v') : Noted w w' v v' := by
  cases he with
  | events es => exact ⟨es, [], rfl, rfl, (List.append_nil _).symm, (List.append_nil _).symm⟩
  | log n => exact ⟨[], [n], (List.append_nil _).symm, (List.append_nil _).symm, rfl, rfl⟩
  | _ => exact .refl w w'

end States

namespace Process

/-! ## Processes -/

/-- Processes that do the same from two states on, until others may take a turn. -/
inductive Now (x : Nat) : Numbers → World → World → Process → Process → Prop
  | value {N : Numbers} {w w' : World} (v : Json) : Now x N w w' (.value v) (.value v)
  | raised {N : Numbers} {w w' : World} (f : Fault) : Now x N w w' (.raised f) (.raised f)
  | deferred {N : Numbers} {w w' : World} {p p' : Process}
      (h : ∀ N₁ v v', N.Within N₁ → Sees x N₁ v v' → Now x N₁ v v' p p') :
      Now x N w w' (.deferred p) (.deferred p')
  | read {N : Numbers} {w w' : World} {k k' : World → Process}
      (h : Now x N w w' (k w) (k' w')) : Now x N w w' (.read k) (.read k')
  | write {N N₁ : Numbers} {w w' : World} {f f' : World → World} {p p' : Process}
      (hf : Effect x N w w' N₁ (f w) (f' w')) (h : Now x N₁ (f w) (f' w') p p') :
      Now x N w w' (.write f p) (.write f' p')
  | newGuard {N : Numbers} {w w' : World} {k k' : Nat → Process}
      (h : ∀ i i', Now x (N.guard i i') w w' (k i) (k' i')) :
      Now x N w w' (.newGuard k) (.newGuard k')
  | checkGuard {N : Numbers} {w w' : World} {i i' : Nat} {k k' : Bool → Process}
      (hi : (i, i') ∈ N.guards) (h : ∀ used, Now x N w w' (k used) (k' used)) :
      Now x N w w' (.checkGuard i k) (.checkGuard i' k')
  | useGuard {N : Numbers} {w w' : World} {i i' : Nat} {p p' : Process} (hi : (i, i') ∈ N.guards)
      (h : Now x N w w' p p') : Now x N w w' (.useGuard i p) (.useGuard i' p')
  | pause {N : Numbers} {w w' : World} {p p' : Process}
      (h : ∀ N₁ v v', N.Within N₁ → Sees x N₁ v v' → Now x N₁ v v' p p') :
      Now x N w w' (.pause p) (.pause p')
  | both {N : Numbers} {w w' : World} {l l' r r' : Process} {k k' : Settled → Process}
      (hl : ∀ N₁ v v', N.Within N₁ → Sees x N₁ v v' → Now x N₁ v v' l l')
      (hr : ∀ N₁ v v', N.Within N₁ → Sees x N₁ v v' → Now x N₁ v v' r r')
      (hk : ∀ s N₁ v v', N.Within N₁ → Sees x N₁ v v' → Now x N₁ v v' (k s) (k' s)) :
      Now x N w w' (.both l r k) (.both l' r' k')
  | enter {N : Numbers} {w w' : World} {l : Link} {next next' : Process}
      {k k' : Outcome → Process} (hl : l.Steady)
      (hnext : ∀ N₁ v v', N.Within N₁ → Sees x N₁ v v' → Now x N₁ v v' next next')
      (hk : ∀ o N₁ v v', N.Within N₁ → Sees x N₁ v v' → Now x N₁ v v' (k o) (k' o)) :
      Now x N w w' (.enter l x next k) (.enter l x next' k')

/-- Processes that do the same from any states on that correspond. -/
def Later (x : Nat) (N : Numbers) (p p' : Process) : Prop :=
  ∀ N₁ w w', N.Within N₁ → Sees x N₁ w w' → Now x N₁ w w' p p'

/-- The results of calls that do the same. -/
inductive ReplyLater (x : Nat) (N : Numbers) : Reply → Reply → Prop
  | value (v : Json) : ReplyLater x N (.value v) (.value v)
  | raised (f : Fault) : ReplyLater x N (.raised f) (.raised f)
  | awaitable {p p' : Process} (h : Later x N p p') : ReplyLater x N (.awaitable p) (.awaitable p')

variable {x : Nat} {N N' : Numbers} {w w' : World} {p p' q q' next next' : Process}

theorem Later.mono (h : Later x N p p') (hN : N.Within N') : Later x N' p p' :=
  fun N₁ v v' hN₁ hw => h N₁ v v' (hN.trans hN₁) hw

/-- The same, and then processes that do the same. -/
theorem Now.andThen {k k' : Outcome → Process} (h : Now x N w w' p p') (hw : Sees x N w w')
    (hk : ∀ o, Later x N (k o) (k' o)) : Now x N w w' (p.andThen k) (p'.andThen k') := by
  induction h with
  | value v => exact hk _ _ _ _ (.refl _) hw
  | raised f => exact hk _ _ _ _ (.refl _) hw
  | deferred _ ih => exact ih _ _ _ (.refl _) hw hw hk
  | read _ ih => exact .read (ih hw hk)
  | write hf _ ih => exact .write hf (ih (hf.sees hw) fun o => (hk o).mono hf.within)
  | newGuard _ ih =>
    exact .newGuard fun i i' => ih i i' (hw.of_marks rfl) fun o => (hk o).mono Numbers.within_guard
  | checkGuard hi _ ih => exact .checkGuard hi fun used => ih used hw hk
  | useGuard hi _ ih => exact .useGuard hi (ih hw hk)
  | pause _ ih => exact .pause fun _ _ _ hN hv => ih _ _ _ hN hv hv fun o => (hk o).mono hN
  | both hl hr _ _ _ ih =>
    exact .both hl hr fun s _ _ _ hN hv => ih s _ _ _ hN hv hv fun o => (hk o).mono hN
  | enter hl hnext _ _ ih =>
    exact .enter hl hnext fun o _ _ _ hN hv => ih o _ _ _ hN hv hv fun o => (hk o).mono hN

theorem Now.onCall {k k' : Reply → Process} (h : Now x N w w' p p') (hw : Sees x N w w')
    (hk : ∀ N₁ r r', N.Within N₁ → ReplyLater x N₁ r r' → Later x N₁ (k r) (k' r')) :
    Now x N w w' (p.onCall k) (p'.onCall k') := by
  induction h with
  | value v => exact hk _ _ _ (.refl _) (.value v) _ _ _ (.refl _) hw
  | raised f => exact hk _ _ _ (.refl _) (.raised f) _ _ _ (.refl _) hw
  | deferred h _ => exact hk _ _ _ (.refl _) (.awaitable h) _ _ _ (.refl _) hw
  | read _ ih => exact .read (ih hw hk)
  | write hf _ ih =>
    exact .write hf (ih (hf.sees hw) fun _ _ _ hN hr => hk _ _ _ (hf.within.trans hN) hr)
  | newGuard _ ih =>
    exact .newGuard fun i i' => ih i i' (hw.of_marks rfl) fun _ _ _ hN hr =>
      hk _ _ _ (Numbers.within_guard.trans hN) hr
  | checkGuard hi _ ih => exact .checkGuard hi fun used => ih used hw hk
  | useGuard hi _ ih => exact .useGuard hi (ih hw hk)
  | pause _ ih =>
    exact .pause fun _ _ _ hN hv => ih _ _ _ hN hv hv fun _ _ _ hN₁ hr => hk _ _ _ (hN.trans hN₁) hr
  | both hl hr _ _ _ ih =>
    exact .both hl hr fun s _ _ _ hN hv =>
      ih s _ _ _ hN hv hv fun _ _ _ hN₁ hr => hk _ _ _ (hN.trans hN₁) hr
  | enter hl hnext _ _ ih =>
    exact .enter hl hnext fun o _ _ _ hN hv =>
      ih o _ _ _ hN hv hv fun _ _ _ hN₁ hr => hk _ _ _ (hN.trans hN₁) hr

theorem Later.andThen {k k' : Outcome → Process} (h : Later x N p p')
    (hk : ∀ o, Later x N (k o) (k' o)) : Later x N (p.andThen k) (p'.andThen k') :=
  fun _ _ _ hN hw => (h _ _ _ hN hw).andThen hw fun o => (hk o).mono hN

theorem Later.onCall {k k' : Reply → Process} (h : Later x N p p')
    (hk : ∀ N₁ r r', N.Within N₁ → ReplyLater x N₁ r r' → Later x N₁ (k r) (k' r')) :
    Later x N (p.onCall k) (p'.onCall k') :=
  fun _ _ _ hN hw => (h _ _ _ hN hw).onCall hw fun _ _ _ hN₁ hr => hk _ _ _ (hN.trans hN₁) hr

/-! ## Forms of processes -/

theorem later_value (v : Json) : Later x N (.value v) (.value v) := fun _ _ _ _ _ => .value v

theorem later_raised (f : Fault) : Later x N (.raised f) (.raised f) := fun _ _ _ _ _ => .raised f

theorem later_done : Later x N done done := later_value .null

theorem later_ended (o : Outcome) : Later x N (ended o) (ended o) := by
  cases o with
  | ok v => exact later_value v
  | error f => exact later_raised f

theorem Later.deferred (h : Later x N p p') : Later x N (.deferred p) (.deferred p') :=
  fun _ _ _ hN _ => .deferred fun _ _ _ hN₁ hv => h _ _ _ (hN.trans hN₁) hv

theorem Later.pause (h : Later x N p p') : Later x N (.pause p) (.pause p') :=
  fun _ _ _ hN _ => .pause fun _ _ _ hN₁ hv => h _ _ _ (hN.trans hN₁) hv

theorem Later.both {l l' r r' : Process} {k k' : Settled → Process} (hl : Later x N l l')
    (hr : Later x N r r') (hk : ∀ s, Later x N (k s) (k' s)) :
    Later x N (.both l r k) (.both l' r' k') :=
  fun _ _ _ hN _ => .both (hl.mono hN) (hr.mono hN) fun s => (hk s).mono hN

theorem Later.enter {l : Link} {k k' : Outcome → Process} (hl : l.Steady)
    (hnext : Later x N next next') (hk : ∀ o, Later x N (k o) (k' o)) :
    Later x N (.enter l x next k) (.enter l x next' k') :=
  fun _ _ _ hN _ => .enter hl (hnext.mono hN) fun o => (hk o).mono hN

/-- What both states show is the same, and so is what follows. -/
theorem later_read {k k' : World → Process}
    (h : ∀ N₁ w w', N.Within N₁ → Sees x N₁ w w' → Later x N₁ (k w) (k' w')) :
    Later x N (.read k) (.read k') :=
  fun _ _ _ hN hw => .read (h _ _ _ hN hw _ _ _ (.refl _) hw)

/-- Both states are changed, and then the processes do the same. -/
theorem Later.write {f f' : World → World} (h : Later x N p p')
    (hf : ∀ N₁ w w', N.Within N₁ → Effect x N₁ w w' N₁ (f w) (f' w')) :
    Later x N (.write f p) (.write f' p') := fun _ _ _ hN hw =>
  have he := hf _ _ _ hN
  .write he (h _ _ _ hN (he.sees hw))

theorem Later.followedBy (h : Later x N p p') (hq : Later x N q q') :
    Later x N (p.followedBy q) (p'.followedBy q') := h.andThen fun o => by
  cases o with
  | ok v => exact hq
  | error f => exact later_raised f

theorem Later.ignored (h : Later x N p p') : Later x N p.ignored p'.ignored :=
  h.followedBy later_done

theorem Later.thenCalled (h : Later x N p p') (hq : Later x N q q') :
    Later x N (p.thenCalled q) (p'.thenCalled q') := h.onCall fun _ r r' hN hr => by
  cases hr with
  | value v => exact hq.mono hN
  | raised f => exact later_raised f
  | awaitable h => exact h.deferred

theorem Later.awaited (h : Later x N p p') : Later x N p.awaited p'.awaited :=
  h.onCall fun _ r r' _ hr => by
    cases hr with
    | value v => exact (later_value v).deferred
    | raised f => exact later_raised f
    | awaitable h => exact h.deferred

theorem Later.record (h : Later x N p p') (e : Event) : Later x N (record e p) (record e p') :=
  h.write fun _ _ _ _ => .events [e]

theorem Later.log (h : Later x N p p') (n : Notice) : Later x N (log n p) (log n p') :=
  h.write fun _ _ _ _ => .log n

theorem later_record (e : Event) : Later x N (Process.record e) (Process.record e) :=
  later_done.record e

theorem Later.setContext (h : Later x N p p') (c : Context) :
    Later x N (.write (World.setContext x c) p) (.write (World.setContext x c) p') :=
  h.write fun _ _ _ _ => .setContext c

/-- What is built from states with the same registers is the same, and it notes the same. -/
theorem later_building {α : Type} {b : Build α} {P : α → Prop} {k k' : α → Process}
    (hb : ∀ {R : World → World → Prop}, Build.Sources R → b.Respects R)
    (hP : ∀ w : World, w.Steady → b.Gives w.registers P)
    (hk : ∀ a, P a → Later x N (k a) (k' a)) : Later x N (building b k) (building b k') := by
  intro N₁ w w' hN hw
  -- the two states, with the same events after them
  let R (v v' : World) : Prop := ∃ es, v = { w with events := w.events ++ es } ∧
    v' = { w' with events := w'.events ++ es }
  have hR : Build.Sources R :=
    { registers := by
        rintro _ _ ⟨es, rfl, rfl⟩
        exact hw.registers
      accessed := by
        rintro _ _ ⟨es, rfl, rfl⟩ name
        exact ⟨es ++ [.accessed name], by simp [World.record], by simp [World.record]⟩ }
  obtain ⟨houtcome, es, hleft, hright⟩ := hb hR w w' ⟨[], by simp, by simp⟩
  have hgives := (hP w hw.steady w rfl).1
  have he : Effect x N₁ w w' N₁ (b.outcome w).2 (b.outcome w').2 := hleft ▸ hright ▸ .events es
  have hafter := he.sees hw
  refine .read ?_
  rcases hl : b.outcome w with ⟨f | a, v⟩ <;> rcases hr : b.outcome w' with ⟨f' | a', v'⟩ <;>
    rw [hl, hr] at houtcome he hafter <;> cases houtcome
  · exact .write he (.raised f)
  · exact .write he (hk a (hgives a (congrArg Prod.fst hl)) _ _ _ hN hafter)

/-! ## Scripts -/

/-- What is admitted in the dispatch of one context: no registrations. -/
def oneContext (x : Nat) : Usage where
  contexts y y' := y = x ∧ y' = x
  steps _ := False

theorem eq_of_oneContext {y y' : Nat} (h : (oneContext x).contexts y y') : y = y' :=
  h.1.trans h.2.symm

theorem acting_later : Acting (oneContext x) (Later x N) (Later x N) where
  value := later_value
  raised hf := hf.eq eq_of_oneContext ▸ later_raised _
  pause := .pause
  record he _ hp := he.eq eq_of_oneContext ▸ hp.record _
  context hx hk := later_read fun _ w w' hN hw =>
    (hk w w' (by rw [hx.1, hx.2, hw.context_eq])).mono hN
  setContext hx c hp := by
    rw [hx.1, hx.2]
    exact hp.setContext c
  deferred := .deferred
  log hn _ hp := hn.eq eq_of_oneContext ▸ hp.log _
  client hk := later_read fun _ w w' hN hw => (hk w w' hw.client).mono hN
  andThen hp hk := hp.andThen fun o => hk o o (.refl o)
  thenCalled := .thenCalled
  dropping hp := hp.onCall fun _ r r' _ hr => by
    cases hr with
    | raised f => exact later_raised f
    | value v | awaitable hp => exact later_done
  registering := nofun
  next hp := hp
  missing := later_raised
  twice hp := .both hp hp fun s => later_record _

/-- A script that registers nothing does the same. -/
theorem later_script {e e' : Frame} (h : e.Same (oneContext x).contexts (Later x N) e') {s : Script}
    (hs : s.Steady) : Later x N (s.call e) (s.call e') :=
  acting_later.script h (hs.admitted fun _ => trivial)

/-! ## Links -/

theorem later_leaf : Later x N leaf leaf := later_done.deferred

theorem later_dispatch (id : Nat) (hnext : Later x N next next') :
    Later x N (dispatch id x next) (dispatch id x next') := by
  refine Later.deferred (later_read fun _ w w' hN hw => ?_)
  rw [hw.chain]
  exact .enter (hw.steady.chain id) (hnext.mono hN) fun o => (later_ended o).ignored

theorem Later.once {i i' : Nat} (h : Later x N p p') (hi : (i, i') ∈ N.guards) :
    Later x N (once i p) (once i' p') := fun _ _ _ hN hw =>
  .checkGuard (hN.guards hi) fun used => by
    cases used with
    | true => exact .raised _
    | false => exact .useGuard (hN.guards hi) (h.awaited _ _ _ hN hw)

theorem later_concat {first second : Nat → Process → Process}
    (hfirst : ∀ {M n n'}, Later x M n n' → Later x M (first x n) (first x n'))
    (hsecond : Later x N (second x next) (second x next')) :
    Later x N (Process.concat first second x next) (Process.concat first second x next') :=
  .deferred fun N₁ _ _ hN hw => .newGuard fun i i' =>
    have honce : Later x (N₁.guard i i') _ _ :=
      (hsecond.mono (hN.trans Numbers.within_guard)).once (List.mem_cons_self ..)
    (hfirst honce).ignored _ _ _ (.refl _) (hw.of_marks rfl)

theorem later_joined (s : Settled) : Later x N (joined s) (joined s) :=
  acting_later.joined (fun _ _ => trivial) (.refl s)

theorem later_fork (side : Nat) (hnext : Later x N next next') :
    Later x N (Process.fork side x next) (Process.fork side x next') := by
  refine hnext.onCall fun N₁ r r' _ hr => ?_
  have hbranch : Later x N₁ (dispatch side x leaf) (dispatch side x leaf) :=
    later_dispatch side later_leaf
  cases hr with
  | raised f => exact later_raised f
  | value v => exact .both (later_value v) hbranch later_joined
  | awaitable hrest => exact .both hrest hbranch later_joined

/-- What a boundary's handler is given to go on, in two runs. -/
theorem later_resume {i i' : Nat} (hi : (i, i') ∈ N.marks) :
    Later x N (resume i) (resume i') :=
  .deferred (later_done.write fun _ _ _ hN => .setMark (hN.marks hi) true)

theorem later_withMark {k k' : Nat → Process}
    (hk : ∀ N₁ i i', N.Within N₁ → (i, i') ∈ N₁.marks → Later x N₁ (k i) (k' i')) :
    Later x N (withMark k) (withMark k') := fun _ _ _ hN hw =>
  have he := Effect.addMark
  .read (.write he (hk _ _ _ (hN.trans he.within) (List.mem_cons_self ..) _ _ _ (.refl _)
    (he.sees hw)))

theorem later_boundary (inner : Nat) {handler : Script} (hhandler : handler.Steady)
    (hnext : Later x N next next') :
    Later x N (Process.boundary inner handler x next) (Process.boundary inner handler x next') := by
  refine later_withMark fun N₁ i i' hN hi => ?_
  replace hnext := hnext.mono hN
  have hrest : Later x N₁ (restIfMarked i next) (restIfMarked i' next') := by
    refine later_read fun _ w w' hN hw => ?_
    rw [hw.marked (hN.marks hi)]
    split
    · exact hnext.ignored.mono hN
    · exact later_done
  exact (later_dispatch inner (later_resume hi)).andThen fun o =>
    acting_later.afterChain i i' next next' (fun _ _ => trivial)
      (hhandler.admitted fun _ => trivial) ⟨rfl, rfl⟩ (later_resume hi)
      (.write · fun _ _ _ hN => .setMark (hN.marks hi) false) hrest (.refl o)

/-- A link that registers nothing does the same. -/
theorem later_call : (l : Link) → l.Steady → {N : Numbers} → {next next' : Process} →
    Later x N next next' → Later x N (l.call x next) (l.call x next')
  | .pass, _, _, _, _, hnext => hnext
  | .script s, hl, _, _, _, hnext => by
    cases hl with
    | script hs =>
      exact later_script ⟨.some ⟨rfl, rfl⟩, .some hnext, .none⟩ hs
  | .composer id, _, _, _, _, hnext => later_dispatch id hnext
  | .concat first second, hl, _, _, _, hnext => by
    cases hl with
    | concat hfirst hsecond =>
      exact later_concat (fun hn => later_call first hfirst hn) (later_call second hsecond hnext)
  | .lazily c, hl, _, _, _, hnext => by
    cases hl with
    | lazily hc =>
      have hpaired : c.Paired (oneContext x) (Build.Agrees True) c :=
        Choice.paired_of_steady (fun _ => trivial) fun _ => hc
      refine .deferred (acting_later.pick hpaired ⟨rfl, rfl⟩ _ _ ?_)
      rintro b _ ⟨rfl, hb, hgives⟩
      exact later_building (fun hR => (hb hR).bind (Build.respects_compose hR))
        (fun _ hw => (hgives trivial _ hw).bind fun mw hmw => Build.gives_compose hmw)
        fun chain hchain => .enter hchain hnext fun o => (later_ended o).ignored
  | .fork side, _, _, _, _, hnext => .deferred (later_fork side hnext)
  | .boundary inner handler, hl, _, _, _, hnext => by
    cases hl with
    | boundary _ hhandler => exact .deferred (later_boundary inner hhandler hnext)

/-- The dispatch of a context by a composer does the same. -/
theorem later_run (id : Nat) :
    Later x N ((Link.composer id).run x) ((Link.composer id).run x) :=
  (later_dispatch id later_leaf).ignored

end Process

end UpdateDispatch
