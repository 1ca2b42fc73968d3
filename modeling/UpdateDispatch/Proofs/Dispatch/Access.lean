import UpdateDispatch.Proofs.Dispatch.Threads

/-!
# Rights to guards and marks

`Process.Sound` says which guards and marks a process touches. It looks only at guards that exist
by then, and it changes a mark only with the right to do so: the boundary that made a mark owns it,
and whoever was given the continuation of the boundary may set it. It starts no shared task, and a
link that it enters gets a continuation of a chain (`Process.Handed`).

A process that stays sound while others make guards and marks is `Process.Lasting`. Everything of
which chains are made is, and the lemmas here say so for the ways in which processes are put
together.
-/

namespace UpdateDispatch

/-! ## Rights -/

/-- The marks that a process may set, and those that it may change at will. -/
structure Access where
  sets : Set Nat
  owns : Set Nat

namespace Access

/-- Rights that include those of `A`. -/
structure Le (A B : Access) : Prop where
  sets : A.sets ⊆ B.sets
  owns : A.owns ⊆ B.owns

instance : LE Access := ⟨Le⟩

/-- No rights. -/
def none : Access := ⟨∅, ∅⟩

/-- The right to set one mark. -/
def setting (i : Nat) : Access := ⟨{i}, ∅⟩

/-- The rights with one more mark to change. -/
def own (A : Access) (i : Nat) : Access := { A with owns := insert i A.owns }

variable {A B C : Access}

theorem le_refl (A : Access) : A ≤ A := ⟨subset_rfl, subset_rfl⟩

theorem le_trans (h : A ≤ B) (h' : B ≤ C) : A ≤ C :=
  ⟨h.sets.trans h'.sets, h.owns.trans h'.owns⟩

theorem le_own (A : Access) (i : Nat) : A ≤ A.own i := ⟨subset_rfl, Set.subset_insert i A.owns⟩

theorem own_le_own (h : A ≤ B) (i : Nat) : A.own i ≤ B.own i :=
  ⟨h.sets, Set.insert_subset_insert h.owns⟩

theorem notMem_own {i j : Nat} (h : i ∉ A.owns) (hne : i ≠ j) : i ∉ (A.own j).owns := by
  intro hown
  rcases Set.mem_insert_iff.mp hown with heq | hown
  · exact hne heq
  · exact h hown

/-- A change of the state that changes marks only as far as the rights go. -/
structure Allows (A : Access) (w : World) (f : World → World) : Prop where
  length : (f w).marks.length = w.marks.length
  mark : ∀ i, i ∈ A.owns ∨ (f w).marked i = w.marked i ∨ (i ∈ A.sets ∧ f = World.setMark i true)

theorem Allows.mono {w : World} {f : World → World} (h : A.Allows w f) (hle : A ≤ B) :
    B.Allows w f :=
  ⟨h.length, fun i => (h.mark i).imp (fun hi => hle.owns hi) (Or.imp_right fun hi =>
    ⟨hle.sets hi.1, hi.2⟩)⟩

theorem allows_of_marks {w : World} {f : World → World} (h : (f w).marks = w.marks) :
    A.Allows w f :=
  ⟨by rw [h], fun i => .inr (.inl (by simp only [World.marked, h]))⟩

theorem allows_setMark {w : World} {i : Nat} {b : Bool}
    (h : i ∈ A.owns ∨ (i ∈ A.sets ∧ b = true)) : A.Allows w (World.setMark i b) := by
  refine ⟨List.length_set, fun j => ?_⟩
  by_cases hj : i = j
  · subst hj
    rcases h with hown | ⟨hset, rfl⟩
    · exact .inl hown
    · exact .inr (.inr ⟨hset, rfl⟩)
  · refine .inr (.inl ?_)
    simp [World.setMark, World.marked, List.getElem?_set_ne hj]

end Access

namespace Process

/-! ## The parts of a boundary -/

/-- The continuation that a boundary gives to its chain and to its handler. -/
def resume (mark : Nat) : Process := deferred (write (World.setMark mark true) done)

/-- The rest of the chain, if the mark is set. -/
def restIfMarked (mark : Nat) (next : Process) : Process :=
  read fun w => if w.marked mark then next.ignored else done

/-- What the handler of a boundary is called with: the failure of the chain with the context. -/
def handlerFrame (x mark : Nat) (f : Fault) : Frame :=
  { context := some x, next := some (resume mark), failure := some (.failure f (some x)) }

/-- A process, unless what came before it has failed. -/
def unlessFailed (q : Process) : Outcome → Process
  | .ok _ => q
  | .error f => raised f

/-- How a boundary goes on when its chain has ended. -/
def afterChain (handler : Script) (x mark : Nat) (next : Process) : Outcome → Process
  | .ok _ => restIfMarked mark next
  | .error f =>
    write (World.setMark mark false) <| log (.boundaryCaught f) <|
      (handler.call (handlerFrame x mark f)).andThen (unlessFailed (restIfMarked mark next))

theorem boundary_eq (inner : Nat) (handler : Script) (x : Nat) (next : Process) :
    Process.boundary inner handler x next = withMark fun mark =>
      (dispatch inner x (resume mark)).andThen (afterChain handler x mark next) := rfl

/-! ## Sound processes -/

/-- The continuations that links are entered with. -/
inductive Handed (A : Access) (g : Nat) : Process → Prop
  | leaf : Handed A g leaf
  | resume {mark : Nat} (h : mark ∈ A.sets ∨ mark ∈ A.owns) : Handed A g (resume mark)
  | once {guard : Nat} {rest : Process} (h : guard < g) : Handed A g (once guard rest)

/-- A process that touches guards below `g` and marks within its rights, in the state `w`. -/
def Sound : Process → Access → Nat → World → Prop
  | value _, _, _, _ | raised _, _, _, _ => True
  | deferred p, A, g, w | pause p, A, g, w =>
    ∀ g' w', g ≤ g' → w.marks.length ≤ w'.marks.length → Sound p A g' w'
  | read k, A, g, w => Sound (k w) A g w
  | write f p, A, g, w =>
    (f = World.addMark ∧ Sound p (A.own w.marks.length) g (f w)) ∨
      (A.Allows w f ∧ Sound p A g (f w))
  | newGuard k, A, g, w => ∀ guard, g ≤ guard → Sound (k guard) A (guard + 1) w
  | checkGuard guard k, A, g, w => guard < g ∧ ∀ used, Sound (k used) A g w
  | useGuard _ p, A, g, w => Sound p A g w
  | both l r k, A, g, w => ∀ g' w', g ≤ g' → w.marks.length ≤ w'.marks.length →
    Sound l A g' w' ∧ Sound r A g' w' ∧ ∀ s, Sound (k s) A g' w'
  | start _ _, _, _, _ | await _ _, _, _, _ => False
  | enter _ _ next k, A, g, w => Handed A g next ∧
    ∀ g' w', g ≤ g' → w.marks.length ≤ w'.marks.length →
      Sound next A g' w' ∧ ∀ o, Sound (k o) A g' w'

/-- A process that stays sound while guards and marks are made. -/
def Lasting (p : Process) (A : Access) (g marks : Nat) : Prop :=
  ∀ g' w', g ≤ g' → marks ≤ w'.marks.length → Sound p A g' w'

variable {p q : Process} {A B : Access} {g g' marks marks' : Nat} {w : World}

theorem Handed.mono (h : Handed A g p) (hle : A ≤ B) (hg : g ≤ g') : Handed B g' p := by
  cases h with
  | leaf => exact .leaf
  | resume h => exact .resume (h.imp (fun h => hle.sets h) fun h => hle.owns h)
  | once h => exact .once (Nat.lt_of_lt_of_le h hg)

/-- More rights and more guards do no harm. -/
theorem Sound.mono (h : Sound p A g w) (hle : A ≤ B) (hg : g ≤ g') : Sound p B g' w := by
  induction p generalizing A B g g' w with
  | value v | raised f => trivial
  | deferred p ih | pause p ih =>
    intro g'' w' hg' hw
    exact ih (h g'' w' (Nat.le_trans hg hg') hw) hle (Nat.le_refl _)
  | read k ih => exact ih w h hle hg
  | write f p ih =>
    rcases h with ⟨rfl, h⟩ | ⟨hallows, h⟩
    · exact .inl ⟨rfl, ih h (Access.own_le_own hle _) hg⟩
    · exact .inr ⟨hallows.mono hle, ih h hle hg⟩
  | newGuard k ih =>
    exact fun guard hguard => ih guard (h guard (Nat.le_trans hg hguard)) hle (Nat.le_refl _)
  | checkGuard guard k ih => exact ⟨Nat.lt_of_lt_of_le h.1 hg, fun b => ih b (h.2 b) hle hg⟩
  | useGuard guard p ih => exact ih h hle hg
  | both l r k ihl ihr ih =>
    intro g'' w' hg' hw
    obtain ⟨hl, hr, hk⟩ := h g'' w' (Nat.le_trans hg hg') hw
    exact ⟨ihl hl hle (Nat.le_refl _), ihr hr hle (Nat.le_refl _),
      fun s => ih s (hk s) hle (Nat.le_refl _)⟩
  | start p k => exact h.elim
  | await t k => exact h.elim
  | enter l x next k ihn ih =>
    refine ⟨h.1.mono hle hg, fun g'' w' hg' hw => ?_⟩
    obtain ⟨hnext, hk⟩ := h.2 g'' w' (Nat.le_trans hg hg') hw
    exact ⟨ihn hnext hle (Nat.le_refl _), fun o => ih o (hk o) hle (Nat.le_refl _)⟩

theorem Lasting.sound (h : Lasting p A g marks) (hw : marks ≤ w.marks.length) : Sound p A g w :=
  h g w (Nat.le_refl _) hw

theorem Lasting.mono (h : Lasting p A g marks) (hle : A ≤ B) (hg : g ≤ g') (hm : marks ≤ marks') :
    Lasting p B g' marks' := fun g'' w hg' hw =>
  (h g'' w (Nat.le_trans hg hg') (Nat.le_trans hm hw)).mono hle (Nat.le_refl _)

/-! ## What lasts -/

theorem lasting_value (v : Json) : Lasting (value v) A g marks := fun _ _ _ _ => trivial

theorem lasting_raised (f : Fault) : Lasting (raised f) A g marks := fun _ _ _ _ => trivial

theorem lasting_ended (o : Outcome) : Lasting (ended o) A g marks := by
  cases o with
  | ok v => exact lasting_value v
  | error f => exact lasting_raised f

theorem lasting_done : Lasting done A g marks := lasting_value .null

theorem lasting_deferred_iff : Lasting (deferred p) A g marks ↔ Lasting p A g marks :=
  ⟨fun h g' w hg hw => h g' w hg hw g' w (Nat.le_refl _) (Nat.le_refl _),
    fun h _ _ hg hw g'' w'' hg' hw' => h g'' w'' (Nat.le_trans hg hg') (Nat.le_trans hw hw')⟩

theorem Lasting.pause (h : Lasting p A g marks) : Lasting (pause p) A g marks :=
  fun _ _ hg hw g'' w'' hg' hw' => h g'' w'' (Nat.le_trans hg hg') (Nat.le_trans hw hw')

theorem lasting_read {k : World → Process}
    (h : ∀ w, marks ≤ w.marks.length → Lasting (k w) A g marks) :
    Lasting (read k) A g marks := fun g' w hg hw => h w hw g' w hg hw

theorem Lasting.write {f : World → World} (h : Lasting p A g marks) (hf : ∀ w, A.Allows w f) :
    Lasting (write f p) A g marks := fun g' w hg hw =>
  .inr ⟨hf w, h g' (f w) hg (hw.trans_eq (hf w).length.symm)⟩

theorem Lasting.record (h : Lasting p A g marks) (e : Event) : Lasting (record e p) A g marks :=
  h.write fun _ => Access.allows_of_marks rfl

theorem Lasting.log (h : Lasting p A g marks) (n : Notice) : Lasting (log n p) A g marks :=
  h.write fun _ => Access.allows_of_marks rfl

theorem Lasting.both {l r : Process} {k : Settled → Process} (hl : Lasting l A g marks)
    (hr : Lasting r A g marks) (hk : ∀ s, Lasting (k s) A g marks) :
    Lasting (both l r k) A g marks := fun _ _ hg hw _ _ hg' hw' =>
  ⟨hl _ _ (Nat.le_trans hg hg') (Nat.le_trans hw hw'),
    hr _ _ (Nat.le_trans hg hg') (Nat.le_trans hw hw'),
    fun s => hk s _ _ (Nat.le_trans hg hg') (Nat.le_trans hw hw')⟩

theorem Lasting.enter {l : Link} {x : Nat} {next : Process} {k : Outcome → Process}
    (hnext : Lasting next A g marks) (hhanded : Handed A g next)
    (hk : ∀ o, Lasting (k o) A g marks) : Lasting (enter l x next k) A g marks :=
  fun _ _ hg hw => ⟨hhanded.mono A.le_refl hg, fun _ _ hg' hw' =>
    ⟨hnext _ _ (Nat.le_trans hg hg') (Nat.le_trans hw hw'),
      fun o => hk o _ _ (Nat.le_trans hg hg') (Nat.le_trans hw hw')⟩⟩

/-- What surrounds a process is sound wherever the process can stop, whatever rights, guards and
marks it has made by then. -/
structure Hosts (K : Process → Process) (A : Access) (g marks : Nat) : Prop where
  ended : ∀ {B g' w q o}, A ≤ B → g ≤ g' → marks ≤ w.marks.length → Ended q o →
    Sound (K q) B g' w
  deferred : ∀ {B g' w q}, A ≤ B → g ≤ g' → marks ≤ w.marks.length →
    Lasting q B g' w.marks.length → Sound (K q) B g' w → Sound (K (deferred q)) B g' w

theorem Hosts.later {K : Process → Process} (h : Hosts K A g marks) (hle : A ≤ B)
    (hg : g ≤ g') (hm : marks ≤ marks') : Hosts K B g' marks' where
  ended hle' hg' hm' := h.ended (Access.le_trans hle hle') (Nat.le_trans hg hg')
    (Nat.le_trans hm hm')
  deferred hle' hg' hm' := h.deferred (Access.le_trans hle hle') (Nat.le_trans hg hg')
    (Nat.le_trans hm hm')

/-- A sound process is sound inside of what hosts it. -/
theorem Sound.surrounded {K : Process → Process} (hK : Surrounds K) (h : Sound p A g w)
    (hr : Hosts K A g w.marks.length) : Sound (K p) A g w := by
  induction p generalizing A g w with
  | value v => exact hr.ended A.le_refl (Nat.le_refl _) (Nat.le_refl _) (.value v)
  | raised f => exact hr.ended A.le_refl (Nat.le_refl _) (Nat.le_refl _) (.raised f)
  | deferred p ih =>
    exact hr.deferred A.le_refl (Nat.le_refl _) (Nat.le_refl _) h
      (ih (h g w (Nat.le_refl _) (Nat.le_refl _)) hr)
  | pause p ih =>
    rw [hK.pause]
    intro g' w' hg hw
    exact ih (h g' w' hg hw) (hr.later A.le_refl hg hw)
  | read k ih =>
    rw [hK.read]
    exact ih w h hr
  | write f p ih =>
    rw [hK.write]
    rcases h with ⟨rfl, h⟩ | ⟨hallows, h⟩
    · have hmarks : w.marks.length ≤ w.addMark.marks.length := by simp [World.addMark]
      exact .inl ⟨rfl, ih h (hr.later (A.le_own _) (Nat.le_refl _) hmarks)⟩
    · exact .inr ⟨hallows, ih h (hr.later A.le_refl (Nat.le_refl _) hallows.length.ge)⟩
  | newGuard k ih =>
    rw [hK.newGuard]
    intro guard hguard
    exact ih guard (h guard hguard) (hr.later A.le_refl (by omega) (Nat.le_refl _))
  | checkGuard guard k ih =>
    rw [hK.checkGuard]
    exact ⟨h.1, fun used => ih used (h.2 used) hr⟩
  | useGuard guard p ih =>
    rw [hK.useGuard]
    exact ih h hr
  | both l r k _ _ ih =>
    rw [hK.both]
    intro g' w' hg hw
    obtain ⟨hleft, hright, hs⟩ := h g' w' hg hw
    exact ⟨hleft, hright, fun s => ih s (hs s) (hr.later A.le_refl hg hw)⟩
  | start p k => exact h.elim
  | await t k => exact h.elim
  | enter l x next k _ ih =>
    rw [hK.enter]
    refine ⟨h.1, fun g' w' hg hw => ?_⟩
    obtain ⟨hnext, ho⟩ := h.2 g' w' hg hw
    exact ⟨hnext, fun o => ih o (ho o) (hr.later A.le_refl hg hw)⟩

theorem hosts_andThen {k : Outcome → Process} (hk : ∀ o, Lasting (k o) A g marks) :
    Hosts (andThen · k) A g marks where
  ended hle hg hw hq := by
    cases hq with
    | value v => exact ((hk (.ok v)).mono hle hg hw).sound (Nat.le_refl _)
    | raised f => exact ((hk (.error f)).mono hle hg hw).sound (Nat.le_refl _)
  deferred _ _ _ _ h := h

theorem Sound.andThen {k : Outcome → Process} (h : Sound p A g w)
    (hk : ∀ o, Lasting (k o) A g w.marks.length) : Sound (p.andThen k) A g w :=
  h.surrounded (.andThen k .hole) (hosts_andThen hk)

theorem hosts_onCall {k : Reply → Process}
    (hk : ∀ {B g' marks' r}, A ≤ B → g ≤ g' → marks ≤ marks' →
      (∀ q, r = .awaitable q → Lasting q B g' marks') → Lasting (k r) B g' marks') :
    Hosts (onCall · k) A g marks where
  ended hle hg hw hq := by
    cases hq with
    | value v => exact (hk hle hg hw (by rintro _ ⟨⟩)).sound (Nat.le_refl _)
    | raised f => exact (hk hle hg hw (by rintro _ ⟨⟩)).sound (Nat.le_refl _)
  deferred hle hg hw hq _ := by
    refine (hk hle hg hw ?_).sound (Nat.le_refl _)
    rintro _ ⟨⟩
    exact hq

theorem Sound.onCall {k : Reply → Process} (h : Sound p A g w)
    (hk : ∀ {B g' marks' r}, A ≤ B → g ≤ g' → w.marks.length ≤ marks' →
      (∀ q, r = .awaitable q → Lasting q B g' marks') → Lasting (k r) B g' marks') :
    Sound (p.onCall k) A g w :=
  h.surrounded (.onCall k .hole) (hosts_onCall hk)

theorem Lasting.andThen {k : Outcome → Process} (h : Lasting p A g marks)
    (hk : ∀ o, Lasting (k o) A g marks) : Lasting (p.andThen k) A g marks := fun g' w hg hw =>
  (h g' w hg hw).andThen fun o => (hk o).mono A.le_refl hg hw

theorem Lasting.onCall {k : Reply → Process} (h : Lasting p A g marks)
    (hk : ∀ {B g' marks' r}, A ≤ B → g ≤ g' → marks ≤ marks' →
      (∀ q, r = .awaitable q → Lasting q B g' marks') → Lasting (k r) B g' marks') :
    Lasting (p.onCall k) A g marks := fun g' w hg hw =>
  (h g' w hg hw).onCall fun hle hg' hw' =>
    hk hle (Nat.le_trans hg hg') (Nat.le_trans hw hw')

theorem Lasting.followedBy (h : Lasting p A g marks) (hq : Lasting q A g marks) :
    Lasting (p.followedBy q) A g marks := by
  refine h.andThen fun o => ?_
  cases o with
  | ok v => exact hq
  | error f => exact lasting_raised f

theorem Lasting.ignored (h : Lasting p A g marks) : Lasting p.ignored A g marks :=
  h.followedBy lasting_done

theorem Lasting.thenCalled (h : Lasting p A g marks) (hq : Lasting q A g marks) :
    Lasting (p.thenCalled q) A g marks := by
  refine h.onCall fun {B g' marks' r} hle hg hm hr => ?_
  cases r with
  | value v => exact hq.mono hle hg hm
  | raised f => exact lasting_raised f
  | awaitable r => exact lasting_deferred_iff.mpr (hr r rfl)

theorem Lasting.awaited (h : Lasting p A g marks) : Lasting p.awaited A g marks := by
  refine h.onCall fun {B g' marks' r} hle hg hm hr => ?_
  cases r with
  | value v => exact lasting_deferred_iff.mpr (lasting_value v)
  | raised f => exact lasting_raised f
  | awaitable r => exact lasting_deferred_iff.mpr (hr r rfl)

end Process

end UpdateDispatch
