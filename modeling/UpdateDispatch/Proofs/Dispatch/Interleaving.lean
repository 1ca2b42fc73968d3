import UpdateDispatch.Proofs.Dispatch.Counterparts
import UpdateDispatch.Proofs.Dispatch.SingleRoot

/-!
# Interleaved dispatches

Several contexts are dispatched by one composer, side by side. An `Interleaving` is a run in which
the dispatches take turns in any order, while each of them takes its own turns first come, first
served. It tells who noted and logged what.

Each dispatch is a `Strand` of such a run: what it has made and what it waits for correspond to
those of a run in which the context is dispatched alone. A step of the dispatch is a step of the run
alone (`Strand.step`), and a step of another one changes nothing of it (`Strand.spared`), because
numbers are given out only once. So each dispatch comes to what it comes to alone
(`asAlone_of_interleaving`): guards, marks, choices and what is built on the way are its own.
-/

namespace UpdateDispatch

open Relation

namespace Machine

open Process

variable {m m' s s' m₀ : Machine} {a a' : Owner} {p p' : Process} {i k x y : Nat}
  {N N' M : Numbers} {Js Js' : List Join} {t t' : Turn}

/-! ## Whom an owner runs for -/

/-- The owner runs for root `i`: it is the root, or a side that runs for an owner that does. -/
inductive Serves (Js : List Join) (i : Nat) : Owner → Prop
  | root : Serves Js i (.root i)
  | side {j : Nat} {J : Join} (left : Bool) (hJ : Js[j]? = some J) (h : Serves Js i J.owner) :
      Serves Js i (.side j left)

/-- An owner runs for one root. -/
theorem Serves.unique (h : Serves Js i a) (h' : Serves Js k a) : i = k := by
  induction h with
  | root =>
    cases h'
    rfl
  | side left hJ _ ih =>
    cases h' with
    | side _ hJ' h' =>
      rw [hJ] at hJ'
      cases hJ'
      exact ih h'

/-- All joins are there later, of the same owners. -/
def Extends (Js Js' : List Join) : Prop :=
  ∀ {j : Nat} {J : Join}, Js[j]? = some J → ∃ J' : Join, Js'[j]? = some J' ∧ J'.owner = J.owner

theorem Serves.mono (h : Serves Js i a) (hJs : Extends Js Js') : Serves Js' i a := by
  induction h with
  | root => exact .root
  | side left hJ _ ih =>
    obtain ⟨J', hJ', howner⟩ := hJs hJ
    exact .side left hJ' (howner ▸ ih)

/-- The owner runs for another root. -/
def Foreign (Js : List Join) (i : Nat) (a : Owner) : Prop := ∃ k, i ≠ k ∧ Serves Js k a

theorem Foreign.mono (h : Foreign Js i a) (hJs : Extends Js Js') : Foreign Js' i a := by
  obtain ⟨k, hk, h⟩ := h
  exact ⟨k, hk, h.mono hJs⟩

theorem Foreign.not_serves (h : Foreign Js i a) : ¬ Serves Js i a := by
  obtain ⟨k, hk, h⟩ := h
  exact fun h' => hk (h'.unique h)

/-! ## Interleavings -/

/-- A step of the dispatch of root `i`: its process goes on, or it takes the first of its turns,
whatever turns others have before that. -/
inductive StepOf (i : Nat) (m : Machine) : Machine → Prop
  | advance {a : Owner} {p : Process} (hfocus : m.focus = some (a, p)) (ha : Serves m.joins i a) :
      StepOf i m (m.advance a p)
  | turn {before after : List Turn} {t : Turn} (hfocus : m.focus = none)
      (hready : m.ready = before ++ t :: after) (ht : Serves m.joins i t.owner)
      (hbefore : ∀ t ∈ before, ¬ Serves m.joins i t.owner) :
      StepOf i m (take t { m with ready := before ++ after })

/-- A run from `m₀` in which dispatches take steps in any order, with the events and the lines of
the log, and whose they are. -/
inductive Interleaving (m₀ : Machine) :
    Machine → List (Nat × Event) → List (Nat × Notice) → Prop
  | start : Interleaving m₀ m₀ [] []
  | step {m m' : Machine} {es : List (Nat × Event)} {ns : List (Nat × Notice)} {i : Nat}
      (h : Interleaving m₀ m es ns) (hstep : StepOf i m m') :
      Interleaving m₀ m'
        (es ++ (m'.world.events.drop m.world.events.length).map (Prod.mk i))
        (ns ++ (m'.world.notices.drop m.world.notices.length).map (Prod.mk i))

/-- Those that are of dispatch `i`. -/
def own {α : Type} (i : Nat) (labelled : List (Nat × α)) : List α :=
  (labelled.filter (·.1 = i)).map Prod.snd

section Own

variable {α : Type}

theorem own_append_self (labelled : List (Nat × α)) (as : List α) :
    own i (labelled ++ as.map (Prod.mk i)) = own i labelled ++ as := by
  simp [own, List.filter_map, Function.comp_def]

theorem own_append_other (hk : k ≠ i) (labelled : List (Nat × α)) (as : List α) :
    own k (labelled ++ as.map (Prod.mk i)) = own k labelled := by
  simp [own, List.filter_map, Function.comp_def, hk.symm]

end Own

/-! ## Turns among those of others -/

/-- The second list holds, in order, what corresponds to items of the first list, and all other
items of the first list are foreign. -/
inductive Picked {α β : Type} (R : α → β → Prop) (foreign : α → Prop) : List α → List β → Prop
  | nil : Picked R foreign [] []
  | own {a : α} {b : β} {as : List α} {bs : List β} (h : R a b) (hrest : Picked R foreign as bs) :
      Picked R foreign (a :: as) (b :: bs)
  | other {a : α} {as : List α} {bs : List β} (h : foreign a) (hrest : Picked R foreign as bs) :
      Picked R foreign (a :: as) bs

namespace Picked

variable {α β : Type} {R S : α → β → Prop} {foreign foreign' : α → Prop} {as as' : List α}
  {bs bs' : List β} {a : α}

theorem imp (h : Picked R foreign as bs) (hR : ∀ {a b}, R a b → S a b)
    (hforeign : ∀ {a}, foreign a → foreign' a) : Picked S foreign' as bs := by
  induction h with
  | nil => exact .nil
  | own h _ ih => exact .own (hR h) ih
  | other h _ ih => exact .other (hforeign h) ih

theorem append (h : Picked R foreign as bs) (h' : Picked R foreign as' bs') :
    Picked R foreign (as ++ as') (bs ++ bs') := by
  induction h with
  | nil => exact h'
  | own h _ ih => exact .own h ih
  | other h _ ih => exact .other h ih

theorem of_foreign (h : ∀ a ∈ as, foreign a) : Picked R foreign as [] := by
  induction as with
  | nil => exact .nil
  | cons a as ih =>
    obtain ⟨ha, has⟩ := List.forall_mem_cons.mp h
    exact .other ha (ih has)

/-- A foreign item is left out. -/
theorem erase_foreign (h : Picked R foreign (as ++ a :: as') bs) (ha : ∀ b, ¬ R a b) :
    Picked R foreign (as ++ as') bs := by
  induction as generalizing bs with
  | nil =>
    cases h with
    | own h => exact absurd h (ha _)
    | other _ hrest => exact hrest
  | cons a' as ih =>
    cases h with
    | own h hrest => exact .own h (ih hrest)
    | other h hrest => exact .other h (ih hrest)

/-- The first item that is not foreign corresponds to the first one of the second list. -/
theorem first (h : Picked R foreign (as ++ a :: as') bs) (has : ∀ a ∈ as, ∀ b, ¬ R a b)
    (ha : ¬ foreign a) : ∃ b bs', bs = b :: bs' ∧ R a b ∧ Picked R foreign (as ++ as') bs' := by
  induction as generalizing bs with
  | nil =>
    cases h with
    | own h hrest => exact ⟨_, _, rfl, h, hrest⟩
    | other h => exact absurd h ha
  | cons a' as ih =>
    obtain ⟨hfirst, has⟩ := List.forall_mem_cons.mp has
    cases h with
    | own h => exact absurd h (hfirst _)
    | other h hrest =>
      obtain ⟨b, bs', rfl, hab, hrest⟩ := ih hrest has
      exact ⟨b, bs', rfl, hab, .other h hrest⟩

end Picked

/-! ## Strands -/

/-- The same owner in a run among others, where it runs for root `i`, and alone. -/
inductive Peer (i : Nat) (N : Numbers) : Owner → Owner → Prop
  | root : Peer i N (.root i) (.root 0)
  | side {j j' : Nat} (hj : (j, j') ∈ N.joins) (left : Bool) :
      Peer i N (.side j left) (.side j' left)

/-- Turns in which the same is done. -/
inductive TurnLater (i x : Nat) (N : Numbers) : Turn → Turn → Prop
  | resume {a a' : Owner} {p p' : Process} (ha : Peer i N a a') (hp : Later x N p p') :
      TurnLater i x N (.resume a p) (.resume a' p')
  | settled {j j' : Nat} (hj : (j, j') ∈ N.joins) (left : Bool) (o : Outcome) :
      TurnLater i x N (.settled j left o) (.settled j' left o)

/-- Joins after which the same is done. -/
structure JoinLater (i x : Nat) (N : Numbers) (J J' : Join) : Prop where
  owner : Peer i N J.owner J'.owner
  next : ∀ s, Later x N (J.next s) (J'.next s)
  first : J'.first = J.first

/-- Either the dispatch of root `i` runs in both machines, and does the same, or in neither. -/
inductive FocusLater (i x : Nat) (N : Numbers) (m s : Machine) : Prop
  | own {a a' : Owner} {p p' : Process} (hm : m.focus = some (a, p)) (hs : s.focus = some (a', p'))
      (ha : Peer i N a a') (hp : Now x N m.world s.world p p')
  | other (hs : s.focus = none) (hm : ∀ {a p}, m.focus = some (a, p) → Foreign m.joins i a)

/-- The dispatch of root `i` in `m`, for the context `x`, is where it is alone in `s`. -/
structure Strand (i x : Nat) (N : Numbers) (m s : Machine) : Prop where
  world : Sees x N m.world s.world
  guards : Flags N.guards m.guards s.guards
  joins : Counterparts (JoinLater i x N) N.joins m.joins s.joins
  serves : ∀ {a a'}, Peer i N a a' → Serves m.joins i a
  named : ∀ {j J}, m.joins[j]? = some J → (∃ j', (j, j') ∈ N.joins) ∨ Foreign m.joins i J.owner
  focus : FocusLater i x N m s
  ready : Picked (TurnLater i x N) (fun t => Foreign m.joins i t.owner) m.ready s.ready
  root : ∃ r, m.roots[i]? = some r ∧ s.roots = [r]

theorem Peer.mono (h : Peer i N a a') (hN : N.Within N') : Peer i N' a a' := by
  cases h with
  | root => exact .root
  | side hj left => exact .side (hN.joins hj) left

theorem Peer.of_joins (h : Peer i N' a a') (hjoins : N'.joins = N.joins) : Peer i N a a' := by
  cases h with
  | root => exact .root
  | side hj left => exact .side (hjoins ▸ hj) left

theorem TurnLater.mono (h : TurnLater i x N t t') (hN : N.Within N') : TurnLater i x N' t t' := by
  cases h with
  | resume ha hp => exact .resume (ha.mono hN) (hp.mono hN)
  | settled hj left o => exact .settled (hN.joins hj) left o

theorem JoinLater.mono {J J' : Join} (h : JoinLater i x N J J') (hN : N.Within N') :
    JoinLater i x N' J J' :=
  ⟨h.owner.mono hN, fun s => (h.next s).mono hN, h.first⟩

theorem TurnLater.peer (h : TurnLater i x N t t') : Peer i N t.owner t'.owner := by
  cases h with
  | resume ha _ => exact ha
  | settled hj left _ => exact .side hj left

namespace Strand

variable {u : Machine}

theorem focus_of_serves (h : Strand i x N m s) (hfocus : m.focus = some (a, p))
    (ha : Serves m.joins i a) :
    ∃ a' p', s.focus = some (a', p') ∧ Peer i N a a' ∧ Now x N m.world s.world p p' := by
  cases h.focus with
  | own hm hs ha hp =>
    rw [hfocus] at hm
    cases hm
    exact ⟨_, _, hs, ha, hp⟩
  | other _ hm => exact absurd ha (hm hfocus).not_serves

theorem focus_eq_none (h : Strand i x N m s) (hfocus : ∀ {a p}, m.focus = some (a, p) →
    Foreign m.joins i a) : s.focus = none := by
  cases h.focus with
  | own hm _ ha _ => exact absurd (h.serves ha) (hfocus hm).not_serves
  | other hs _ => exact hs

end Strand

/-! ## What is of no concern to others -/

/-- Two dispatches have nothing in common. -/
structure Apart (N M : Numbers) : Prop where
  guards : ∀ {g g' h'}, (g, g') ∈ N.guards → (g, h') ∉ M.guards
  marks : ∀ {g g' h'}, (g, g') ∈ N.marks → (g, h') ∉ M.marks
  joins : ∀ {j j' h'}, (j, j') ∈ N.joins → (j, h') ∉ M.joins

/-- What the dispatch of root `i` has done since `m` is of no concern to others. -/
structure Spares (i x : Nat) (N : Numbers) (m m' : Machine) : Prop where
  world : ∀ {y M w}, y ≠ x → Apart N M → Sees y M m.world w → Sees y M m'.world w
  guards : ∀ {M bs}, Apart N M → Flags M.guards m.guards bs → Flags M.guards m'.guards bs
  joins : ∀ {j J}, m.joins[j]? = some J →
    ∃ J', m'.joins[j]? = some J' ∧ J'.owner = J.owner ∧ (J' = J ∨ ∃ j', (j, j') ∈ N.joins)
  made : ∀ {j J}, m'.joins[j]? = some J → j < m.joins.length ∨ Serves m.joins i J.owner
  focus : ∀ {a p}, m'.focus = some (a, p) → Serves m.joins i a
  ready : ∃ new, m'.ready = m.ready ++ new ∧ ∀ t ∈ new, Serves m'.joins i t.owner
  roots : ∀ {k}, k ≠ i → m'.roots[k]? = m.roots[k]?

theorem Spares.idle (i x : Nat) (N : Numbers) (m : Machine) : Spares i x N m m.idle where
  world _ _ h := h
  guards _ h := h
  joins hJ := ⟨_, hJ, rfl, .inl rfl⟩
  made hJ := .inl (List.getElem?_eq_some_iff.mp hJ).1
  focus := nofun
  ready := ⟨[], (List.append_nil _).symm, nofun⟩
  roots _ := rfl

theorem Spares.extends (h : Spares i x N m m') : Extends m.joins m'.joins := fun hJ => by
  obtain ⟨J', hJ', howner, -⟩ := h.joins hJ
  exact ⟨J', hJ', howner⟩

/-- A dispatch stays where it is while another one goes on. -/
theorem Strand.spared (h : Strand k y M m s) (hspares : Spares i x N m m') (hk : k ≠ i) (hy : y ≠ x)
    (hapart : Apart N M) (hs : s.focus = none) : Strand k y M m' s where
  world := hspares.world hy hapart h.world
  guards := hspares.guards hapart h.guards
  joins := h.joins.left fun {j j'} hj => by
    obtain ⟨J, -, hJ, -, -⟩ := h.joins.items hj
    obtain ⟨J', hJ', -, rfl | ⟨h', hown⟩⟩ := hspares.joins hJ
    · rw [hJ, hJ']
    · exact absurd hj (hapart.joins hown)
  serves ha := (h.serves ha).mono hspares.extends
  named {j J'} hJ' := by
    rcases hspares.made hJ' with hlt | hserves
    · obtain ⟨J₁, hJ₁, howner, -⟩ := hspares.joins (List.getElem?_eq_getElem hlt)
      rw [hJ'] at hJ₁
      cases hJ₁
      rw [howner]
      exact (h.named (List.getElem?_eq_getElem hlt)).imp_right (·.mono hspares.extends)
    · exact .inr ⟨i, hk, hserves.mono hspares.extends⟩
  focus := .other hs fun hfocus => ⟨i, hk, (hspares.focus hfocus).mono hspares.extends⟩
  ready := by
    obtain ⟨new, heq, hnew⟩ := hspares.ready
    rw [heq, ← s.ready.append_nil]
    exact (h.ready.imp id (·.mono hspares.extends)).append
      (.of_foreign fun t ht => ⟨i, hk, hnew t ht⟩)
  root := by
    rw [hspares.roots hk]
    exact h.root

/-! ## Steps -/

/-- All numbers are old ones, or have been given out since `m`. -/
structure Since (m : Machine) (N N' : Numbers) : Prop extends N.Within N' where
  newGuards : ∀ {g g'}, (g, g') ∈ N'.guards → (g, g') ∈ N.guards ∨ m.guards.length ≤ g
  newMarks : ∀ {g g'}, (g, g') ∈ N'.marks → (g, g') ∈ N.marks ∨ m.world.marks.length ≤ g
  newJoins : ∀ {j j'}, (j, j') ∈ N'.joins → (j, j') ∈ N.joins ∨ m.joins.length ≤ j

theorem Since.refl (m : Machine) (N : Numbers) : Since m N N where
  toWithin := .refl N
  newGuards := .inl
  newMarks := .inl
  newJoins := .inl

/-- The dispatch of root `i` has gone from `m` to `m'`, and alone from `s` to `s'`. -/
structure Advances (i x : Nat) (N : Numbers) (m s : Machine) (N' : Numbers) (m' s' : Machine) :
    Prop where
  since : Since m N N'
  strand : Strand i x N' m' s'
  spares : Spares i x N m m'
  noted : Noted m.world s.world m'.world s'.world

section Advances

variable {l l' r r' : Process} {K K' : Settled → Process}

theorem Strand.focusOn (h : Strand i x N m s) (ha : Peer i N a a')
    (hp : Now x N m.world s.world p p') :
    Advances i x N m s N (m.focusOn a p) (s.focusOn a' p') where
  since := .refl m N
  strand := { h with focus := .own rfl rfl ha hp }
  spares := { Spares.idle i x N m with
    focus := by
      rintro _ _ ⟨⟩
      exact h.serves ha }
  noted := .refl _ _

/-- New pairs of guards or marks are of no concern to who runs for whom. -/
theorem Strand.since (h : Strand i x N m s) (hN : N.Within N') (hjoins : N'.joins = N.joins)
    {guards guards' : List Bool} {w w' : World} (hguards : Flags N'.guards guards guards')
    (hw : Sees x N' w w') (ha : Peer i N a a') (hp : Now x N' w w' p p') :
    Strand i x N' { m with world := w, guards, focus := some (a, p) }
      { s with world := w', guards := guards', focus := some (a', p') } where
  world := hw
  guards := hguards
  joins := hjoins ▸ h.joins.imp (·.mono hN)
  serves ha := h.serves (ha.of_joins hjoins)
  named := hjoins ▸ h.named
  focus := .own rfl rfl (ha.mono hN) hp
  ready := h.ready.imp (·.mono hN) id
  root := h.root

theorem Strand.write (h : Strand i x N m s) (ha : Peer i N a a') {v v' : World}
    (he : Effect x N m.world s.world N' v v') (hp : Now x N' v v' p p') :
    Advances i x N m s N' { m with world := v, focus := some (a, p) }
      { s with world := v', focus := some (a', p') } where
  since :=
    { toWithin := he.within
      newGuards := fun hg => .inl (he.guards_eq ▸ hg)
      newMarks := he.marks
      newJoins := fun hj => .inl (he.joins_eq ▸ hj) }
  strand := h.since he.within he.joins_eq (he.guards_eq ▸ h.guards) (he.sees h.world) ha hp
  spares := { Spares.idle i x N m with
    world := fun hy hapart h => he.other hy hapart.marks h
    focus := by
      rintro _ _ ⟨⟩
      exact h.serves ha }
  noted := he.noted

theorem Strand.newGuard (h : Strand i x N m s) (ha : Peer i N a a')
    (hp : Now x (N.guard m.guards.length s.guards.length) m.world s.world p p') :
    Advances i x N m s (N.guard m.guards.length s.guards.length)
      { m with guards := m.guards ++ [false], focus := some (a, p) }
      { s with guards := s.guards ++ [false], focus := some (a', p') } where
  since :=
    { toWithin := Numbers.within_guard
      newGuards := fun hg => by
        rcases List.mem_cons.mp hg with heq | hg
        · cases heq
          exact .inr (Nat.le_refl _)
        · exact .inl hg
      newMarks := .inl
      newJoins := .inl }
  strand := h.since Numbers.within_guard rfl (h.guards.add rfl) (h.world.of_marks rfl) ha hp
  spares := { Spares.idle i x N m with
    guards := fun _ h => h.left fun hg => List.getElem?_append_left (h.lt hg).1
    focus := by
      rintro _ _ ⟨⟩
      exact h.serves ha }
  noted := .refl _ _

theorem Strand.useGuard (h : Strand i x N m s) (ha : Peer i N a a') {g g' : Nat}
    (hg : (g, g') ∈ N.guards) (hp : Now x N m.world s.world p p') :
    Advances i x N m s N { m with guards := m.guards.set g true, focus := some (a, p) }
      { s with guards := s.guards.set g' true, focus := some (a', p') } where
  since := .refl m N
  strand := h.since (.refl N) rfl (h.guards.set hg rfl) h.world ha hp
  spares := { Spares.idle i x N m with
    guards := fun hapart h => h.left fun {j j'} hj => by
      refine List.getElem?_set_ne ?_
      rintro rfl
      exact hapart.guards hg hj
    focus := by
      rintro _ _ ⟨⟩
      exact h.serves ha }
  noted := .refl _ _

theorem Strand.queue (h : Strand i x N m s) (ht : TurnLater i x N t t') :
    Advances i x N m s N (m.idle.queue t) (s.idle.queue t') where
  since := .refl m N
  strand := { h with
    focus := .other rfl nofun
    ready := h.ready.append (.own ht .nil) }
  spares := { Spares.idle i x N m with
    ready := ⟨[t], rfl, List.forall_mem_singleton.mpr (h.serves ht.peer)⟩ }
  noted := .refl _ _

theorem Strand.finish (h : Strand i x N m s) (ha : Peer i N a a') (o : Outcome) :
    Advances i x N m s N (m.finish a o) (s.finish a' o) := by
  cases ha with
  | side hj left => exact h.queue (.settled hj left o)
  | root =>
    obtain ⟨r, hr, hs⟩ := h.root
    have hlt : i < m.roots.length := (List.getElem?_eq_some_iff.mp hr).1
    exact
      { since := .refl m N
        strand := { h with
          focus := .other rfl nofun
          root := ⟨some o, List.getElem?_set_self hlt, by simp [Machine.finish, hs]⟩ }
        spares := { Spares.idle i x N m with
          roots := fun hk => List.getElem?_set_ne hk.symm }
        noted := .refl _ _ }

/-! ### Sides -/

theorem extends_split (m : Machine) (a : Owner) (l r : Process) (K : Settled → Process) :
    Extends m.joins (m.split a l r K).joins := fun hJ =>
  ⟨_, (List.getElem?_append_left (List.getElem?_eq_some_iff.mp hJ).1).trans hJ, rfl⟩

theorem peer_split (left : Bool) {j j' : Nat} :
    Peer i (N.join j j') (.side j left) (.side j' left) :=
  .side (List.mem_cons_self ..) left

theorem since_split (m : Machine) (N : Numbers) (j' : Nat) :
    Since m N (N.join m.joins.length j') where
  toWithin := Numbers.within_join
  newGuards := .inl
  newMarks := .inl
  newJoins hj := by
    rcases List.mem_cons.mp hj with heq | hj
    · cases heq
      exact .inr (Nat.le_refl _)
    · exact .inl hj

theorem Strand.serves_split (h : Strand i x N m s) (ha : Serves m.joins i a) {b b' : Owner}
    (hb : Peer i (N.join m.joins.length s.joins.length) b b') :
    Serves (m.split a l r K).joins i b := by
  cases hb with
  | root => exact .root
  | side hj left =>
    rcases List.mem_cons.mp hj with heq | hj
    · cases heq
      exact .side left List.getElem?_concat_length (ha.mono (extends_split m a l r K))
    · exact (h.serves (.side hj left)).mono (extends_split m a l r K)

theorem Strand.strand_split (h : Strand i x N m s) (ha : Peer i N a a') (hl : Later x N l l')
    (hr : Later x N r r') (hK : ∀ o, Later x N (K o) (K' o)) :
    Strand i x (N.join m.joins.length s.joins.length) (m.split a l r K) (s.split a' l' r' K') where
  world := h.world.of_marks rfl
  guards := h.guards
  joins := (h.joins.imp (·.mono Numbers.within_join)).add
    ⟨ha.mono Numbers.within_join, fun o => (hK o).mono Numbers.within_join, rfl⟩
  serves := h.serves_split (h.serves ha)
  named hJ := by
    rcases getElem?_joins_split hJ with hJ | ⟨rfl, -⟩
    · exact (h.named hJ).imp (fun ⟨j', hj⟩ => ⟨j', List.mem_cons_of_mem _ hj⟩)
        (·.mono (extends_split m a l r K))
    · exact .inl ⟨_, List.mem_cons_self ..⟩
  focus := .other rfl nofun
  ready := (h.ready.imp (·.mono Numbers.within_join) (·.mono (extends_split m a l r K))).append
    (.own (.resume (peer_split true) (hl.mono Numbers.within_join))
      (.own (.resume (peer_split false) (hr.mono Numbers.within_join)) .nil))
  root := h.root

theorem Strand.spares_split (h : Strand i x N m s) (ha : Serves m.joins i a) :
    Spares i x N m (m.split a l r K) :=
  { Spares.idle i x N m with
    joins := fun {j J} hJ =>
      ⟨J, (List.getElem?_append_left (List.getElem?_eq_some_iff.mp hJ).1).trans hJ, rfl, .inl rfl⟩
    made := fun hJ => by
      rcases getElem?_joins_split hJ with hJ | ⟨-, rfl⟩
      · exact .inl (List.getElem?_eq_some_iff.mp hJ).1
      · exact .inr ha
    ready := ⟨_, rfl, List.forall_mem_cons.mpr ⟨h.serves_split ha (peer_split true),
      List.forall_mem_singleton.mpr (h.serves_split ha (peer_split false))⟩⟩ }

theorem Strand.split (h : Strand i x N m s) (ha : Peer i N a a') (hl : Later x N l l')
    (hr : Later x N r r') (hK : ∀ o, Later x N (K o) (K' o)) :
    Advances i x N m s (N.join m.joins.length s.joins.length) (m.split a l r K)
      (s.split a' l' r' K') where
  since := since_split m N s.joins.length
  strand := h.strand_split ha hl hr hK
  spares := h.spares_split (h.serves ha)
  noted := .refl _ _

/-- The running process of the dispatch goes on, alone as among others. -/
theorem Strand.advance (h : Strand i x N m s) (ha : Peer i N a a')
    (hp : Now x N m.world s.world p p') :
    ∃ N', Advances i x N m s N' (m.advance a p) (s.advance a' p') := by
  cases hp with
  | value v => exact ⟨N, h.finish ha (.ok v)⟩
  | raised f => exact ⟨N, h.finish ha (.error f)⟩
  | deferred hp => exact ⟨N, h.focusOn ha (hp _ _ _ (.refl N) h.world)⟩
  | read hp => exact ⟨N, h.focusOn ha hp⟩
  | write he hp => exact ⟨_, h.write ha he hp⟩
  | newGuard hp => exact ⟨_, h.newGuard ha (hp _ _)⟩
  | @checkGuard _ _ _ g g' _ _ hg hp =>
    refine ⟨N, h.focusOn ha ?_⟩
    rw [show s.used g' = m.used g from Flags.getD h.guards hg]
    exact hp _
  | useGuard hg hp => exact ⟨N, h.useGuard ha hg hp⟩
  | pause hp => exact ⟨N, h.queue (.resume ha hp)⟩
  | both hl hr hk => exact ⟨_, h.split ha hl hr hk⟩
  | enter hl hnext hk =>
    exact ⟨N, h.focusOn ha (((later_call _ hl hnext).andThen hk) _ _ _ (.refl N) h.world)⟩

theorem idle_eq (hm : m.focus = none) : m.idle = m := by
  rw [idle, ← hm]

/-- A join that the dispatch waits at has been told something. All else stays as it is. -/
theorem joins_told {j j' : Nat} {J : Join} (J' : Join) (hJ : m.joins[j]? = some J)
    (hj : (j, j') ∈ N.joins) (howner : J'.owner = J.owner) {k : Nat} {L : Join}
    (hL : m.joins[k]? = some L) : ∃ L', (m.joins.set j J')[k]? = some L' ∧ L'.owner = L.owner ∧
      (L' = L ∨ ∃ k', (k, k') ∈ N.joins) := by
  by_cases heq : j = k
  · obtain rfl := heq
    rw [hJ] at hL
    cases hL
    exact ⟨J', List.getElem?_set_self (List.getElem?_eq_some_iff.mp hJ).1, howner, .inr ⟨j', hj⟩⟩
  · exact ⟨L, (List.getElem?_set_ne heq).trans hL, rfl, .inl rfl⟩

theorem lt_of_told {j k : Nat} {J' L : Join} (hL : (m.joins.set j J')[k]? = some L) :
    k < m.joins.length := by
  have hlt := (List.getElem?_eq_some_iff.mp hL).1
  rwa [List.length_set] at hlt

/-- The first side of a join has ended. -/
theorem Strand.tell (h : Strand i x N m s) (hm : m.focus = none) (hs : s.focus = none)
    {j j' : Nat} (hj : (j, j') ∈ N.joins) {J J' : Join} (hJ : m.joins[j]? = some J)
    (hlater : JoinLater i x N J J') (o : Option (Bool × Outcome)) :
    Advances i x N m s N { m with joins := m.joins.set j { J with first := o } }
      { s with joins := s.joins.set j' { J' with first := o } } := by
  have hjoins : ∀ {k L}, m.joins[k]? = some L →
      ∃ L', (m.joins.set j { J with first := o })[k]? = some L' ∧ L'.owner = L.owner ∧
        (L' = L ∨ ∃ k', (k, k') ∈ N.joins) := fun hL =>
    joins_told { J with first := o } hJ hj rfl hL
  have hextends : Extends m.joins (m.joins.set j { J with first := o }) := fun hL => by
    obtain ⟨L', hL', howner, -⟩ := hjoins hL
    exact ⟨L', hL', howner⟩
  exact
    { since := .refl m N
      strand := { h with
        joins := h.joins.set hj ⟨hlater.owner, hlater.next, rfl⟩
        serves := fun ha => (h.serves ha).mono hextends
        named := fun {k L'} hL' => by
          obtain ⟨L, hL⟩ : ∃ L, m.joins[k]? = some L :=
            ⟨_, List.getElem?_eq_getElem (lt_of_told hL')⟩
          obtain ⟨L₁, hL₁, howner, -⟩ := hjoins hL
          rw [hL'] at hL₁
          cases hL₁
          rw [howner]
          exact (h.named hL).imp_right (·.mono hextends)
        focus := .other hs fun hf => nomatch hm.symm.trans hf
        ready := h.ready.imp id (·.mono hextends) }
      spares := { Spares.idle i x N m with
        joins := hjoins
        made := fun hL => .inl (lt_of_told hL)
        focus := fun hf => nomatch hm.symm.trans hf
        ready := ⟨[], (List.append_nil _).symm, nofun⟩ }
      noted := .refl _ _ }

theorem Strand.settle (h : Strand i x N m s) (hm : m.focus = none) (hs : s.focus = none)
    {j j' : Nat} (hj : (j, j') ∈ N.joins) (left : Bool) (o : Outcome) :
    Advances i x N m s N (m.settle j left o) (s.settle j' left o) := by
  obtain ⟨J, J', hJ, hJ', hlater⟩ := h.joins.items hj
  unfold Machine.settle
  rw [hJ, hJ']
  dsimp only
  rw [hlater.first]
  split
  · exact h.tell hm hs hj hJ hlater _
  · next firstLeft first _ =>
    have hqueue := h.queue (.resume hlater.owner (hlater.next (pair firstLeft first o)))
    rwa [idle_eq hm, idle_eq hs] at hqueue

/-- The dispatch takes a turn. -/
theorem Strand.take (h : Strand i x N m s) (hm : m.focus = none) (hs : s.focus = none)
    (ht : TurnLater i x N t t') : Advances i x N m s N (take t m) (take t' s) := by
  cases ht with
  | resume ha hp => exact h.focusOn ha (hp _ _ _ (.refl N) h.world)
  | settled hj left o => exact h.settle hm hs hj left o

end Advances

/-- The queue without a turn of the dispatch of root `i` is the same to others. -/
theorem Strand.without {before after : List Turn} (h : Strand k y M m s)
    (hready : m.ready = before ++ t :: after) (ht : Serves m.joins i t.owner) (hk : k ≠ i) :
    Strand k y M { m with ready := before ++ after } s :=
  { h with
    focus := by
      cases h.focus with
      | own hm hs ha hp => exact .own hm hs ha hp
      | other hs hm => exact .other hs hm
    ready := (hready ▸ h.ready).erase_foreign fun _ hturn => hk ((h.serves hturn.peer).unique ht) }

/-- The dispatch of root `i` has taken a step from `m` to `m'`, which is a step alone. -/
structure Steps (i x : Nat) (N : Numbers) (m s : Machine) (N' : Numbers) (m' s' : Machine) :
    Prop where
  goes : Goes s s'
  since : Since m N N'
  strand : Strand i x N' m' s'
  noted : Noted m.world s.world m'.world s'.world
  others : ∀ {k y M u}, k ≠ i → y ≠ x → Apart N M → Strand k y M m u → Strand k y M m' u
  joins : Extends m.joins m'.joins
  focus : ∀ {a p}, m'.focus = some (a, p) → Serves m'.joins i a
  ready : ∀ t ∈ m'.ready, t ∈ m.ready ∨ Serves m'.joins i t.owner

/-- The running process of the dispatch goes on. -/
theorem Strand.step_advance (h : Strand i x N m s) (hfocus : m.focus = some (a, p))
    (ha : Serves m.joins i a) : ∃ N' s', Steps i x N m s N' (m.advance a p) s' := by
  obtain ⟨a', p', hs, hpeer, hp⟩ := h.focus_of_serves hfocus ha
  obtain ⟨N', hadvances⟩ := h.advance hpeer hp
  obtain ⟨new, heq, hnew⟩ := hadvances.spares.ready
  exact ⟨N', _,
    { goes := step_of_focus hs
      since := hadvances.since
      strand := hadvances.strand
      noted := hadvances.noted
      others := fun {k y M u} hk hy hapart hu => by
        refine hu.spared hadvances.spares hk hy hapart (hu.focus_eq_none fun hf => ?_)
        rw [hfocus] at hf
        cases hf
        exact ⟨i, hk, ha⟩
      joins := hadvances.spares.extends
      focus := fun hf => (hadvances.spares.focus hf).mono hadvances.spares.extends
      ready := by
        rw [heq]
        exact fun t ht => (List.mem_append.mp ht).imp_right (hnew t) }⟩

/-- Nobody runs, and the dispatch takes the first of its turns. -/
theorem Strand.step_turn (h : Strand i x N m s) {before after : List Turn}
    (hfocus : m.focus = none) (hready : m.ready = before ++ t :: after)
    (ht : Serves m.joins i t.owner) (hbefore : ∀ t ∈ before, ¬ Serves m.joins i t.owner) :
    ∃ N' s', Steps i x N m s N' (Machine.take t { m with ready := before ++ after }) s' := by
  have hnone : ∀ {k : Nat} {a : Owner} {p : Process}, m.focus = some (a, p) →
      Foreign m.joins k a := fun hf => nomatch hfocus.symm.trans hf
  have hs : s.focus = none := h.focus_eq_none hnone
  have hpicked := h.ready
  rw [hready] at hpicked
  obtain ⟨t', rest, hrest, hturn, hpicked⟩ := hpicked.first
    (fun b hb _ hturn => hbefore b hb (h.serves hturn.peer)) fun hforeign =>
      hforeign.not_serves ht
  have hstrand : Strand i x N { m with ready := before ++ after } { s with ready := rest } :=
    { h with
      focus := .other hs hnone
      ready := hpicked }
  have hadvances := hstrand.take hfocus hs hturn
  obtain ⟨new, heq, hnew⟩ := hadvances.spares.ready
  exact ⟨N, Machine.take t' { s with ready := rest },
    { goes := by
        unfold Goes Machine.step
        rw [hs, hrest]
        cases t' <;> rfl
      since := .refl m N
      strand := hadvances.strand
      noted := hadvances.noted
      others := fun hk hy hapart hu =>
        (hu.without hready ht hk).spared hadvances.spares hk hy hapart (hu.focus_eq_none hnone)
      joins := hadvances.spares.extends
      focus := fun hf => (hadvances.spares.focus hf).mono hadvances.spares.extends
      ready := fun b hb => by
        rw [heq] at hb
        refine (List.mem_append.mp hb).imp (fun hb => ?_) (hnew b)
        rw [hready]
        exact List.mem_append.mpr ((List.mem_append.mp hb).imp_right (List.mem_cons_of_mem _)) }⟩

/-- Each step of a dispatch among others is a step of it alone. -/
theorem Strand.step (h : Strand i x N m s) (hstep : StepOf i m m') :
    ∃ N' s', Steps i x N m s N' m' s' := by
  cases hstep with
  | advance hfocus ha => exact h.step_advance hfocus ha
  | turn hfocus hready ht hbefore => exact h.step_turn hfocus hready ht hbefore

/-! ## All dispatches -/

/-- The machine that dispatches contexts by a composer, side by side. -/
def together (w : World) (id : Nat) (xs : List Nat) : Machine :=
  ofRoots w (xs.map fun x => (Link.composer id).run x)

/-- The machine that dispatches one context by a composer. -/
def alone (w : World) (id x : Nat) : Machine := ofRoots w [(Link.composer id).run x]

/-- Every dispatch is where it is alone, nothing belongs to two of them, and nobody else has
anything to do. -/
structure Joint (w : World) (id : Nat) (xs : List Nat) (Ns : Nat → Numbers) (m : Machine)
    (es : List (Nat × Event)) (ns : List (Nat × Notice)) : Prop where
  strand : ∀ {i x}, xs[i]? = some x → ∃ n, Strand i x (Ns i) m (run n (alone w id x)) ∧
    (run n (alone w id x)).world.events = w.events ++ own i es ∧
    (run n (alone w id x)).world.notices = w.notices ++ own i ns
  apart : ∀ {i k x y}, xs[i]? = some x → xs[k]? = some y → k ≠ i → Apart (Ns i) (Ns k)
  focus : ∀ {a p}, m.focus = some (a, p) → ∃ i x, xs[i]? = some x ∧ Serves m.joins i a
  ready : ∀ t ∈ m.ready, ∃ i x, xs[i]? = some x ∧ Serves m.joins i t.owner
  events : m.world.events = w.events ++ es.map Prod.snd
  notices : m.world.notices = w.notices ++ ns.map Prod.snd

variable {w : World} {id : Nat} {xs : List Nat} {Ns : Nat → Numbers} {es : List (Nat × Event)}
  {ns : List (Nat × Notice)}

theorem Picked.of_getElem? {α β : Type} {R : α → β → Prop} {foreign : α → Prop} {as : List α}
    {a : α} {b : β} (h : as[i]? = some a) (hab : R a b)
    (hothers : ∀ {k a'}, as[k]? = some a' → i ≠ k → foreign a') : Picked R foreign as [b] := by
  induction as generalizing i with
  | nil => cases h
  | cons a₀ as ih =>
    cases i with
    | zero =>
      cases h
      refine .own hab (.of_foreign fun a' ha' => ?_)
      obtain ⟨k, hk⟩ := List.mem_iff_getElem?.mp ha'
      exact hothers (k := k + 1) hk (Nat.succ_ne_zero k).symm
    | succ i =>
      exact .other (hothers (k := 0) rfl (Nat.succ_ne_zero i))
        (ih h fun {k a'} hk hne => hothers (k := k + 1) hk fun heq => hne (Nat.succ.inj heq))

theorem ready_together (i : Nat) : (together w id xs).ready[i]? =
    xs[i]?.map fun x => .resume (.root i) ((Link.composer id).run x) := by
  simp [together, ofRoots, List.getElem?_mapIdx, Function.comp_def]

theorem joint_start (hw : w.Steady) : Joint w id xs (fun _ => {}) (together w id xs) [] [] where
  strand {i x} hx := by
    refine ⟨0, ?_, (List.append_nil _).symm, (List.append_nil _).symm⟩
    exact
      { world := ⟨hw, rfl, rfl, rfl, rfl, .nil _ _ _⟩
        guards := .nil _ _ _
        joins := .nil _ _ _
        serves := fun ha => by
          cases ha with
          | root => exact .root
          | side hj => cases hj
        named := fun hJ => by cases hJ
        focus := .other rfl nofun
        ready := by
          refine .of_getElem? (by rw [ready_together, hx]; rfl) (.resume .root (later_run id))
            fun {k t} hk hne => ?_
          rw [ready_together] at hk
          obtain ⟨y, -, rfl⟩ := Option.map_eq_some_iff.mp hk
          exact ⟨k, hne, .root⟩
        root := ⟨none, by simp [together, ofRoots, hx], rfl⟩ }
  apart _ _ _ := by constructor <;> simp
  focus := nofun
  ready t ht := by
    obtain ⟨i, hi⟩ := List.mem_iff_getElem?.mp ht
    rw [ready_together] at hi
    obtain ⟨x, hx, rfl⟩ := Option.map_eq_some_iff.mp hi
    exact ⟨i, x, hx, .root⟩
  events := (List.append_nil _).symm
  notices := (List.append_nil _).symm

theorem StepOf.serves (hstep : StepOf i m m') :
    (∃ a p, m.focus = some (a, p) ∧ Serves m.joins i a) ∨
      ∃ t ∈ m.ready, Serves m.joins i t.owner := by
  cases hstep with
  | advance hfocus ha => exact .inl ⟨_, _, hfocus, ha⟩
  | turn _ hready ht _ => exact .inr ⟨_, by simp [hready], ht⟩

theorem Apart.since (h : Apart N M) {M' : Numbers} (hM : Since m M M')
    (hguards : ∀ {g g'}, (g, g') ∈ N.guards → g < m.guards.length)
    (hmarks : ∀ {g g'}, (g, g') ∈ N.marks → g < m.world.marks.length)
    (hjoins : ∀ {j j'}, (j, j') ∈ N.joins → j < m.joins.length) : Apart N M' where
  guards hg hg' := by
    rcases hM.newGuards hg' with hold | hnew
    · exact h.guards hg hold
    · exact absurd (hguards hg) (Nat.not_lt.mpr hnew)
  marks hg hg' := by
    rcases hM.newMarks hg' with hold | hnew
    · exact h.marks hg hold
    · exact absurd (hmarks hg) (Nat.not_lt.mpr hnew)
  joins hj hj' := by
    rcases hM.newJoins hj' with hold | hnew
    · exact h.joins hj hold
    · exact absurd (hjoins hj) (Nat.not_lt.mpr hnew)

theorem Apart.symm (h : Apart N M) : Apart M N where
  guards hg hg' := h.guards hg' hg
  marks hg hg' := h.marks hg' hg
  joins hj hj' := h.joins hj' hj

/-- What a dispatch makes is not what another one has made. -/
theorem Strand.apart (h : Strand k y M m s) (hapart : Apart M N) (hN : Since m N N') : Apart M N' :=
  hapart.since hN (fun hg => (h.guards.lt hg).1) (fun hg => (h.world.marks.lt hg).1)
    fun hj => (h.joins.lt hj).1

theorem Joint.exists_context (h : Joint w id xs Ns m es ns) (hstep : StepOf i m m') :
    ∃ x, xs[i]? = some x := by
  rcases hstep.serves with ⟨a, p, hfocus, ha⟩ | ⟨t, ht, ha⟩
  · obtain ⟨k, y, hy, hb⟩ := h.focus hfocus
    exact ⟨y, hb.unique ha ▸ hy⟩
  · obtain ⟨k, y, hy, hb⟩ := h.ready t ht
    exact ⟨y, hb.unique ha ▸ hy⟩

/-- What a step of one dispatch makes is of that dispatch only. -/
theorem Joint.apart_step (h : Joint w id xs Ns m es ns) (hx : xs[i]? = some x)
    (hN : Since m (Ns i) N') {l : Nat} {z : Nat} (hy : xs[k]? = some y) (hz : xs[l]? = some z)
    (hl : l ≠ k) : Apart (Function.update Ns i N' k) (Function.update Ns i N' l) := by
  have hothers : ∀ {k y}, xs[k]? = some y → k ≠ i → Apart N' (Ns k) := fun hy hk => by
    obtain ⟨_, hother, -⟩ := h.strand hy
    exact (hother.apart (h.apart hy hx hk.symm) hN).symm
  by_cases hk : k = i
  · obtain rfl := hk
    rw [Function.update_self, Function.update_of_ne hl]
    exact hothers hz hl
  · rw [Function.update_of_ne hk]
    by_cases hl' : l = i
    · obtain rfl := hl'
      rw [Function.update_self]
      exact (hothers hy hk).symm
    · rw [Function.update_of_ne hl']
      exact h.apart hy hz hl

/-- After a step of the dispatch of root `i`, in which it notes and logs something, each dispatch is
where it is alone. -/
theorem Joint.strand_step (h : Joint w id xs Ns m es ns) (hxs : xs.Nodup) (hx : xs[i]? = some x)
    {n : Nat} (hn : (run n (alone w id x)).world.events = w.events ++ own i es ∧
      (run n (alone w id x)).world.notices = w.notices ++ own i ns)
    (hsteps : Steps i x (Ns i) m (run n (alone w id x)) N' m' s') {es' : List Event}
    {ns' : List Notice} (hes : s'.world.events = (run n (alone w id x)).world.events ++ es')
    (hns : s'.world.notices = (run n (alone w id x)).world.notices ++ ns')
    (hy : xs[k]? = some y) :
    ∃ n, Strand k y (Function.update Ns i N' k) m' (run n (alone w id y)) ∧
      (run n (alone w id y)).world.events = w.events ++ own k (es ++ es'.map (Prod.mk i)) ∧
      (run n (alone w id y)).world.notices = w.notices ++ own k (ns ++ ns'.map (Prod.mk i)) := by
  by_cases hk : k = i
  · obtain rfl := hk
    rw [hx] at hy
    cases hy
    have hrun : run (n + 1) (alone w id x) = s' := by
      rw [run_add, run_of_goes hsteps.goes]
      rfl
    refine ⟨n + 1, ?_, ?_, ?_⟩
    · rw [Function.update_self, hrun]
      exact hsteps.strand
    · rw [hrun, own_append_self, hes, hn.1, List.append_assoc]
    · rw [hrun, own_append_self, hns, hn.2, List.append_assoc]
  · have hne : y ≠ x := by
      rintro rfl
      exact hk ((List.getElem?_inj (List.getElem?_eq_some_iff.mp hy).1 hxs).mp (hy.trans hx.symm))
    obtain ⟨n', hother, hevents, hnotices⟩ := h.strand hy
    refine ⟨n', ?_, ?_, ?_⟩
    · rw [Function.update_of_ne hk]
      exact hsteps.others hk hne (h.apart hx hy hk) hother
    · rw [own_append_other hk, hevents]
    · rw [own_append_other hk, hnotices]

/-- A step of any dispatch leaves every dispatch where it is alone. -/
theorem Joint.step (h : Joint w id xs Ns m es ns) (hxs : xs.Nodup) (hstep : StepOf i m m') :
    ∃ Ns', Joint w id xs Ns' m'
      (es ++ (m'.world.events.drop m.world.events.length).map (Prod.mk i))
      (ns ++ (m'.world.notices.drop m.world.notices.length).map (Prod.mk i)) := by
  obtain ⟨x, hx⟩ := h.exists_context hstep
  obtain ⟨n, hstrand, hn⟩ := h.strand hx
  obtain ⟨N', s', hsteps⟩ := hstrand.step hstep
  obtain ⟨es', ns', hes, hes', hns, hns'⟩ := hsteps.noted
  rw [hes, hns, List.drop_left, List.drop_left]
  exact ⟨Function.update Ns i N',
    { strand := h.strand_step hxs hx hn hsteps hes' hns'
      apart := h.apart_step hx hsteps.since
      focus := fun hf => ⟨i, x, hx, hsteps.focus hf⟩
      ready := fun t ht => by
        rcases hsteps.ready t ht with ht | hserves
        · obtain ⟨k, y, hy, hserves⟩ := h.ready t ht
          exact ⟨k, y, hy, hserves.mono hsteps.joins⟩
        · exact ⟨i, x, hx, hserves⟩
      events := by
        rw [hes, h.events, List.map_append, List.append_assoc]
        simp [Function.comp_def]
      notices := by
        rw [hns, h.notices, List.map_append, List.append_assoc]
        simp [Function.comp_def] }⟩

/-- In every interleaving each dispatch is where it is alone. -/
theorem joint_of_interleaving (hw : w.Steady) (hxs : xs.Nodup)
    (h : Interleaving (together w id xs) m es ns) : ∃ Ns, Joint w id xs Ns m es ns := by
  induction h with
  | start => exact ⟨_, joint_start hw⟩
  | step _ hstep ih =>
    obtain ⟨Ns, hjoint⟩ := ih
    exact hjoint.step hxs hstep

/-- Every event and every line of the log is of some dispatch. -/
theorem noted_of_interleaving (hw : w.Steady) (hxs : xs.Nodup)
    (h : Interleaving (together w id xs) m es ns) :
    m.world.events = w.events ++ es.map Prod.snd ∧
      m.world.notices = w.notices ++ ns.map Prod.snd := by
  obtain ⟨Ns, hjoint⟩ := joint_of_interleaving hw hxs h
  exact ⟨hjoint.events, hjoint.notices⟩

/-- Every step of the machine is a step of one of the dispatches. -/
theorem Joint.exists_stepOf (h : Joint w id xs Ns m es ns) (hstep : m.step = some m') :
    ∃ i, StepOf i m m' := by
  unfold Machine.step at hstep
  split at hstep
  · next a p hfocus =>
    cases hstep
    obtain ⟨i, x, -, ha⟩ := h.focus hfocus
    exact ⟨i, .advance hfocus ha⟩
  · next hfocus =>
    have hturn : ∀ t rest, m.ready = t :: rest →
        ∃ i, StepOf i m (Machine.take t { m with ready := rest }) := fun t rest hready => by
      obtain ⟨i, x, -, ht⟩ := h.ready t (by simp [hready])
      exact ⟨i, .turn hfocus (show m.ready = [] ++ t :: rest from hready) ht nofun⟩
    split at hstep
    · cases hstep
    · next hready =>
      cases hstep
      have hgoes := hturn _ _ hready
      rwa [Machine.take, focusOn] at hgoes
    · next hready =>
      cases hstep
      exact hturn _ _ hready

/-- The run in which the first turn of the queue is always taken is an interleaving. -/
theorem interleaving_run (hw : w.Steady) (hxs : xs.Nodup) (n : Nat) :
    ∃ es ns, Interleaving (together w id xs) (run n (together w id xs)) es ns := by
  induction n with
  | zero => exact ⟨[], [], .start⟩
  | succ n ih =>
    obtain ⟨es, ns, hrun⟩ := ih
    rw [run_add]
    generalize run n (together w id xs) = m at hrun
    rcases hstep : m.step with _ | m'
    · rw [run_of_stopped hstep]
      exact ⟨es, ns, hrun⟩
    · rw [run_of_goes hstep]
      obtain ⟨Ns, hjoint⟩ := joint_of_interleaving hw hxs hrun
      obtain ⟨i, hi⟩ := hjoint.exists_stepOf hstep
      exact ⟨_, _, hrun.step hi⟩

/-! ## One dispatch among others and alone -/

/-- The dispatch of root `i` has come to what it comes to when the context is dispatched alone: the
context, the events, the log and the outcome are the same, and if it is over among the others, then
it is over alone. -/
structure AsAlone (w : World) (i x : Nat) (m : Machine) (es : List (Nat × Event))
    (ns : List (Nat × Notice)) (s : Machine) : Prop where
  context : s.world.contexts[x]? = m.world.contexts[x]?
  events : s.world.events = w.events ++ own i es
  notices : s.world.notices = w.notices ++ own i ns
  outcome : s.roots[0]? = m.roots[i]?
  stopped : (m.step = none ∨ ∃ o, m.roots[i]? = some (some o)) → s.step = none

theorem Strand.step_eq_none (h : Strand i x N m s) (hstep : m.step = none) : s.step = none := by
  unfold Machine.step at hstep
  split at hstep
  · cases hstep
  · next hfocus =>
    split at hstep
    · next hready =>
      have hs : s.focus = none := h.focus_eq_none fun hf => nomatch hfocus.symm.trans hf
      have hpicked := h.ready
      rw [hready] at hpicked
      generalize hrest : s.ready = rest at hpicked
      cases hpicked
      simp [Machine.step, hs, hrest]
    · cases hstep
    · cases hstep

/-- Contexts that one composer dispatches, in whatever order their dispatches take turns, come each
to what they come to alone. -/
theorem asAlone_of_interleaving (hw : w.Steady) (hxs : xs.Nodup)
    (h : Interleaving (together w id xs) m es ns) (hx : xs[i]? = some x) :
    ∃ n, AsAlone w i x m es ns (run n (alone w id x)) := by
  obtain ⟨Ns, hjoint⟩ := joint_of_interleaving hw hxs h
  obtain ⟨n, hstrand, hevents, hnotices⟩ := hjoint.strand hx
  obtain ⟨r, hr, hroots⟩ := hstrand.root
  refine ⟨n, hstrand.world.context, hevents, hnotices, by rw [hroots, hr]; rfl, ?_⟩
  rintro (hstep | ⟨o, ho⟩)
  · exact hstrand.step_eq_none hstep
  · rw [hr] at ho
    cases ho
    exact step_eq_none_of_root (.run _ x) (by rw [alone] at hroots; rw [hroots]; rfl)

/-- A boundary with a chain that fails for some contexts, and a rest that notes a value. -/
def sharedWorld : World where
  client := none
  me := default
  composers :=
    [{ chain := .concat (.boundary 1 { actions := [.noteFailure, .next], plain := false })
        (.script { actions := [.note (.str "rest"), .next], plain := true }) },
     { chain := .lazily (.branch { source := .field "fails" none } false
        [.link (failing 1 "boom")]
        [.link (.script { actions := [.pause 2, .note (.str "fine"), .next], plain := false })]) }]
  contexts :=
    [{ update := .obj [("fails", .bool true)], me := default },
      { update := .obj [], me := default }]

theorem steady_sharedWorld : sharedWorld.Steady where
  chains c hc := by
    rcases List.mem_pair.mp hc with rfl | rfl
    · refine .concat (.boundary 1 ?_) (.script ?_)
      all_goals
        intro a ha
        rcases List.mem_pair.mp ha with rfl | rfl <;> nofun
    · refine .lazily (.branch ?_ ?_)
      all_goals
        intro mw hmw
        obtain rfl := List.mem_singleton.mp hmw
        refine .link (.script fun a ha => ?_)
        simp only [List.mem_cons, List.not_mem_nil, or_false] at ha
      · rcases ha with rfl | rfl | rfl <;> nofun
      · rcases ha with rfl | rfl | rfl <;> nofun
  handlers c hc b hb := by
    rcases List.mem_pair.mp hc with rfl | rfl <;> cases hb
  registers := nofun

/-- One of two contexts takes the way of the failure, while the other one does not, and both come to
the rest. -/
theorem asAlone_sharedWorld : ∃ es ns,
    Interleaving (together sharedWorld 0 [0, 1]) (run 80 (together sharedWorld 0 [0, 1])) es ns ∧
    (∃ n, AsAlone sharedWorld 0 0 (run 80 (together sharedWorld 0 [0, 1])) es ns
      (run n (alone sharedWorld 0 0))) ∧
    (∃ n, AsAlone sharedWorld 1 1 (run 80 (together sharedWorld 0 [0, 1])) es ns
      (run n (alone sharedWorld 0 1))) ∧
    (run 80 (together sharedWorld 0 [0, 1])).roots = [some (.ok .null), some (.ok .null)] ∧
    (run 80 (together sharedWorld 0 [0, 1])).world.events =
      [.note (.str "boom"), .failed (.failure (.raised .value (.str "boom")) (some 0)) .null,
        .note (.str "rest"), .note (.str "fine"), .note (.str "rest")] := by
  have hxs : [0, 1].Nodup := by decide
  obtain ⟨es, ns, hrun⟩ : ∃ es ns, Interleaving (together sharedWorld 0 [0, 1])
      (run 80 (together sharedWorld 0 [0, 1])) es ns := interleaving_run steady_sharedWorld hxs 80
  exact ⟨es, ns, hrun, asAlone_of_interleaving steady_sharedWorld hxs hrun rfl,
    asAlone_of_interleaving steady_sharedWorld hxs hrun rfl, by cbv, by cbv⟩

end Machine

end UpdateDispatch
