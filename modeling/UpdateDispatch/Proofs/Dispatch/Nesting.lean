import UpdateDispatch.Proofs.Dispatch.Quiescence
import UpdateDispatch.Proofs.Dispatch.Turns

/-!
# Nested boundaries

Boundaries that stand directly in each other share one way out: the continuation of a boundary is
that of the one around it. `Nests` says of a link that it is such a nest around some core. When the
nest is called, all its boundaries are entered before anybody else gets a turn
(`Machine.Nests.entered`), and what the core comes to is handed outwards.

A failure of the core is given to the innermost handler, and a handler that fails hands its own
fault to the next one (`Machine.Escalates`). A handler that returns ends this at once: nothing but
marks changes until the outermost boundary is done with its chain.
-/

namespace UpdateDispatch

open Relation

/-- In a state with these chains, a link is a nest of boundaries around a core. The handlers are
listed from the innermost outwards. -/
inductive Nests (chain : Nat → Link) (core : Link) : List Script → Link → Prop
  | core : Nests chain core [] core
  | boundary {inner : Nat} {handler : Script} {handlers : List Script}
      (h : Nests chain core handlers (chain inner)) :
      Nests chain core (handlers ++ [handler]) (.boundary inner handler)
  | composer {id : Nat} {handlers : List Script} (h : Nests chain core handlers (chain id)) :
      Nests chain core handlers (.composer id)
  | afterPass {l : Link} {handlers : List Script} (h : Nests chain core handlers l) :
      Nests chain core handlers (.concat .pass l)

namespace Process

/-- A boundary that has been entered: its handler, its mark, and the rest of the chain after it. -/
structure Level where
  handler : Script
  mark : Nat
  next : Process

/-- The continuation that is given to what stands inside of some levels. -/
def entrance (levels : List Level) (next : Process) : Process :=
  match levels with
  | [] => next
  | L :: _ => resume L.mark

/-- The levels stand directly in each other: each goes on where the one around it is resumed, and
the outermost one with `next`. -/
def Linked (next : Process) : List Level → Prop
  | [] => True
  | L :: outer => L.next = entrance outer next ∧ Linked next outer

/-- What follows the end of the core, given what follows the outermost level. -/
def onward (x : Nat) (k : Outcome → Process) : List Level → Outcome → Process
  | [] => k
  | L :: outer =>
    ignoring fun o => (afterChain L.handler x L.mark L.next o).andThen (onward x k outer)

variable {k : Outcome → Process} {x : Nat} {next : Process} {levels : List Level}

theorem ignoring_ignoring (k : Outcome → Process) : ignoring (ignoring k) = ignoring k := by
  funext o
  cases o <;> rfl

theorem onward_append (L : Level) : onward x k (levels ++ [L]) = onward x
    (ignoring fun o => (afterChain L.handler x L.mark L.next o).andThen k) levels := by
  induction levels with
  | nil => rfl
  | cons L' levels ih =>
    rw [List.cons_append, onward, ih]
    rfl

theorem entrance_append (L : Level) :
    entrance (levels ++ [L]) next = entrance levels (resume L.mark) := by
  cases levels <;> rfl

theorem linked_append {L : Level} (hL : L.next = next) (h : Linked (resume L.mark) levels) :
    Linked next (levels ++ [L]) := by
  induction levels with
  | nil => exact ⟨hL, trivial⟩
  | cons L' levels ih => exact ⟨h.1.trans (entrance_append L).symm, ih h.2⟩

end Process

namespace Machine

open Process

variable {chain : Nat → Link} {core l : Link} {handlers : List Script} {m m' e s : Machine}
  {a : Owner} {p q : Process} {k : Outcome → Process} {x : Nat} {next : Process} {L : Level}
  {outer : List Level} {f : Fault} {o : Outcome}

/-! ## Entering a nest -/

theorem surrounds_andThen (k : Outcome → Process) : Surrounds fun p => p.andThen k :=
  .andThen k .hole

/-- A boundary that is called makes its mark and enters its chain. -/
theorem InTurn.boundary (h : InTurn a m s) {inner : Nat} {handler : Script}
    (hfocus : s.focus = some (a, ((Link.boundary inner handler).call x next).andThen k)) :
    InTurn a m { s with
      world := s.world.addMark
      focus := some (a, ((s.world.chain inner).call x (resume s.world.marks.length)).andThen
        (ignoring fun o => (afterChain handler x s.world.marks.length next o).andThen k)) } := by
  have hread := h.read (surrounds_andThen k) (show s.focus =
    some (a, (Process.boundary inner handler x next).andThen k) from hfocus)
  have hwrite := hread.write (surrounds_andThen k) rfl
  exact hwrite.dispatch (congrArg (fun p => some (a, p)) (andThen_andThen _ _ k))

/-- A nest that is called enters all its boundaries and calls its core, within the same turn. -/
theorem exists_levels (hnest : Nests chain core handlers l)
    (hchain : ∀ id, s.world.chain id = chain id)
    (hfocus : s.focus = some (a, (l.call x next).andThen k)) :
    ∃ s' levels k', InTurn a s s' ∧
      s'.focus = some (a, (core.call x (entrance levels next)).andThen (onward x k' levels)) ∧
      levels.map Level.handler = handlers ∧ Linked next levels ∧ (k' = k ∨ k' = ignoring k) := by
  induction hnest generalizing s k next with
  | core => exact ⟨s, [], k, .refl s, hfocus, rfl, trivial, .inl rfl⟩
  | @boundary inner handler handlers _ ih =>
    have hcall := (InTurn.refl s).boundary hfocus
    rw [hchain inner] at hcall
    obtain ⟨s', levels, k', hturn, hfocus', rfl, hlinked, hk'⟩ :=
      ih (s := { s with world := s.world.addMark, focus := _ }) hchain rfl
    refine ⟨s', levels ++ [⟨handler, s.world.marks.length, next⟩], k, hcall.trans hturn, ?_,
      List.map_append, linked_append rfl hlinked, .inl rfl⟩
    rw [hfocus', entrance_append, onward_append]
    rcases hk' with rfl | rfl
    · rfl
    · rw [ignoring_ignoring]
  | @composer id handlers _ ih =>
    have hcall := (InTurn.refl s).dispatch hfocus
    rw [hchain id] at hcall
    obtain ⟨s', levels, k', hturn, hfocus', hhandlers, hlinked, hk'⟩ :=
      ih (s := s.focusOn a (((chain id).call x next).andThen (ignoring k))) hchain rfl
    refine ⟨s', levels, k', hcall.trans hturn, hfocus', hhandlers, hlinked, .inr ?_⟩
    exact hk'.elim (fun h => h) (·.trans (ignoring_ignoring k))
  | afterPass _ ih =>
    obtain ⟨t, hcall, hworld, hfocus⟩ := (InTurn.refl s).concat_pass hfocus
    obtain ⟨s', levels, k', hturn, hfocus', hhandlers, hlinked, hk'⟩ :=
      ih (fun id => hworld ▸ hchain id) hfocus
    refine ⟨s', levels, k', hcall.trans hturn, hfocus', hhandlers, hlinked, .inr ?_⟩
    exact hk'.elim (fun h => h) (·.trans (ignoring_ignoring k))

/-! ## The way of a failure -/

/-- The state in which the handler of a level is called with a failure that came up in `e`. -/
def calling (a : Owner) (x : Nat) (k : Outcome → Process) (L : Level) (outer : List Level)
    (f : Fault) (e : Machine) : Machine :=
  { e with
    world := (e.world.setMark L.mark false).log (.boundaryCaught f)
    focus := some (a, ((L.handler.call (handlerFrame x L.mark f)).andThen
      (unlessFailed (restIfMarked L.mark L.next))).andThen (onward x k outer)) }

/-- The handler of a level is called with a failure that came up in `e`, and it ends in `e'`. -/
structure Handles (a : Owner) (x : Nat) (k : Outcome → Process) (L : Level) (outer : List Level)
    (f : Fault) (e e' : Machine) (o : Outcome) : Prop where
  called : InTurn a e (calling a x k L outer f e)
  reaches : ReflTransGen Next (calling a x k L outer f e) e'
  ends : EndsAt a (fun p => p.andThen (onward x k outer))
    (unlessFailed (restIfMarked L.mark L.next)) (L.handler.call (handlerFrame x L.mark f)) e' o

/-- The outermost one of some levels. -/
def outermost : Level → List Level → Level
  | L, [] => L
  | _, L :: outer => outermost L outer

/-- In `s` the outermost boundary has its chain behind it. Only marks have changed since `e`. -/
def Leaves (a : Owner) (k : Outcome → Process) (next : Process) (L : Level) (e s : Machine) :
    Prop :=
  ∃ marks, s = { e with
    world := { e.world with marks }
    focus := some (a, (restIfMarked L.mark next).andThen k) }

/-- A failure `f` has come to the innermost of some levels in the state `e`. What the process of `a`
is at in a later state `m'`, as `q`. -/
inductive Escalates (a : Owner) (x : Nat) (k : Outcome → Process) (next : Process) :
    List Level → Fault → Machine → Machine → Process → Prop
  /-- There is no boundary, and what follows gets the failure. -/
  | unabsorbed {f : Fault} {e m' : Machine} {q : Process}
      (hfocus : e.focus = some (a, k (.error f)))
      (hleaves : Leads (k (.error f)) q) : Escalates a x k next [] f e m' q
  /-- The handler is about to be called. -/
  | caught {L : Level} {outer : List Level} {f : Fault} {e m' : Machine} {q : Process}
      (hcalled : InTurn a m' (calling a x k L outer f e)) :
      Escalates a x k next (L :: outer) f e m' q
  /-- The handler runs. -/
  | handling {L : Level} {outer : List Level} {f : Fault} {e m' : Machine} {p : Process}
      (hcalled : InTurn a e (calling a x k L outer f e))
      (hhandler : Leads (L.handler.call (handlerFrame x L.mark f)) p) :
      Escalates a x k next (L :: outer) f e m'
        ((p.andThen (unlessFailed (restIfMarked L.mark L.next))).andThen (onward x k outer))
  /-- The handler has returned, and no other one is called. -/
  | absorbed {L : Level} {outer : List Level} {f : Fault} {e e' s m' : Machine} {v : Json}
      {q : Process} (hhandler : Handles a x k L outer f e e' (.ok v))
      (hreturn : InTurn a e' s) (hleaves : Leaves a k next (outermost L outer) e' s)
      (hq : InTurn a m' s ∨ Leads ((restIfMarked (outermost L outer).mark next).andThen k) q) :
      Escalates a x k next (L :: outer) f e m' q
  /-- The handler has failed, and its own fault goes outwards. -/
  | rethrown {L : Level} {outer : List Level} {f g : Fault} {e e' m' : Machine} {q : Process}
      (hhandler : Handles a x k L outer f e e' (.error g))
      (hrest : Escalates a x k next outer g e' m' q) :
      Escalates a x k next (L :: outer) f e m' q

theorem inTurn_calling (hfocus : e.focus = some (a, onward x k (L :: outer) (.error f))) :
    InTurn a e (calling a x k L outer f e) := by
  have hK := surrounds_andThen (onward x k outer)
  exact ((InTurn.refl e).write hK hfocus).write hK rfl

/-- After a handler has returned, each boundary around it finds that its chain has returned. -/
theorem exists_leaves (hlinked : Linked next (L :: outer))
    (hfocus : e.focus = some (a, (restIfMarked L.mark L.next).andThen (onward x k outer))) :
    ∃ s, InTurn a e s ∧ Leaves a k next (outermost L outer) e s := by
  induction outer generalizing e L with
  | nil =>
    refine ⟨e, .refl e, e.world.marks, ?_⟩
    rw [hlinked.1] at hfocus
    obtain ⟨w, guards, focus, ready, joins, tasks, roots⟩ := e
    subst hfocus
    rfl
  | cons L' outer ih =>
    have hread := (InTurn.refl e).read (surrounds_andThen _) hfocus
    rw [hlinked.1] at hread
    rcases hmark : e.world.marked L.mark with _ | _
    · rw [hmark] at hread
      obtain ⟨s, hturn, marks, rfl⟩ := ih hlinked.2 (e := e.focusOn a _) rfl
      exact ⟨_, hread.trans hturn, marks, rfl⟩
    · rw [hmark] at hread
      have hwrite := hread.advance rfl
      obtain ⟨s, hturn, marks, rfl⟩ := ih hlinked.2
        (e := { e with world := e.world.setMark L'.mark true, focus := _ }) rfl
      exact ⟨_, hwrite.trans hturn, marks, rfl⟩

/-- The failure goes outwards from one handler that fails to the next, up to one that returns. -/
theorem escalates (he : Reachable e) {levels : List Level} (hlinked : Linked next levels)
    (hfocus : e.focus = some (a, onward x k levels (.error f))) (hrun : ReflTransGen Next e m')
    (hq : m'.focus = some (a, q)) : Escalates a x k next levels f e m' q := by
  induction levels generalizing e f with
  | nil => exact .unabsorbed hfocus (he.leads (.inl hfocus) hrun hq)
  | cons L outer ih =>
    have hcalled := inTurn_calling hfocus
    rcases hcalled.passes hrun with hbefore | hrun
    · exact .caught hbefore
    have hreach := he.of_reaches hcalled.reaches
    rcases hreach.runs_or_ends (surrounds_andThen (onward x k outer)) rfl hrun hq with
      ⟨p, hp, rfl⟩ | ⟨e', o, hend, hlater⟩
    · exact .handling hcalled hp
    have hhandles : Handles a x k L outer f e e' o := ⟨hcalled, hend.reaches, hend.toEndsAt⟩
    have he' := hreach.of_reaches hend.reaches
    cases o with
    | error g => exact .rethrown hhandles (ih he' hlinked.2 hend.focus hlater)
    | ok v =>
      obtain ⟨s, hturn, hleaves⟩ := exists_leaves hlinked hend.focus
      refine .absorbed hhandles hturn hleaves ?_
      refine (hturn.passes hlater).imp_right fun hlater => ?_
      obtain ⟨marks, rfl⟩ := hleaves
      exact (he'.of_reaches hturn.reaches).leads (.inl rfl) hlater hq

/-- Wherever a nest of boundaries is called and awaited: its boundaries are entered, the innermost
one last, and the core is called. Once the core has failed, the failure escalates. -/
theorem nested_boundaries (hm : Reachable m) (hnest : Nests m.world.chain core handlers l)
    (hfocus : m.focus = some (a, (l.call x next).andThen k)) :
    ∃ s levels k', InTurn a m s ∧
      s.focus = some (a, (core.call x (entrance levels next)).andThen (onward x k' levels)) ∧
      levels.map Level.handler = handlers ∧ Linked next levels ∧ (k' = k ∨ k' = ignoring k) ∧
      ∀ m' q, ReflTransGen Next s m' → m'.focus = some (a, q) →
        (∃ p, Leads (core.call x (entrance levels next)) p ∧ q = p.andThen (onward x k' levels)) ∨
        ∃ e o, ReflTransGen Next s e ∧ ReflTransGen Next e m' ∧
          EndsAt a (fun p => p) (onward x k' levels) (core.call x (entrance levels next)) e o ∧
          ∀ f, o = .error f → Escalates a x k' next levels f e m' q := by
  obtain ⟨s, levels, k', hturn, hcore, hhandlers, hlinked, hk'⟩ :=
    exists_levels hnest (fun _ => rfl) hfocus
  have hs := hm.of_reaches hturn.reaches
  refine ⟨s, levels, k', hturn, hcore, hhandlers, hlinked, hk', fun m' q hrun hq => ?_⟩
  refine (hs.runs_or_ends .hole hcore hrun hq).imp_right ?_
  rintro ⟨e, o, hend, hlater⟩
  refine ⟨e, o, hend.reaches, hlater, hend.toEndsAt, ?_⟩
  rintro f rfl
  exact escalates (hs.of_reaches hend.reaches) hlinked hend.focus hlater hq

/-- A handler that notes the failure and raises another fault. -/
def rethrowing : Script :=
  { actions := [.noteFailure, .throw { kind := .plain .runtime, value := .str "again" }]
    plain := false }

/-- Three boundaries around a script that fails. -/
def nestWorld : World :=
  (Build.outcome
    (do
      let outer ← Build.boundary (← Build.composerOf []) recovering []
      let middle ← Build.boundary outer recovering []
      Build.boundary middle rethrowing [.link (failing 1 "core")])
    { client := none, me := default, contexts := [{ update := .obj [], me := default }] }).2

theorem nests_nestWorld :
    Nests nestWorld.chain (failing 1 "core") [rethrowing, recovering, recovering]
      (.composer 0) := by
  have hcore : Nests nestWorld.chain (failing 1 "core") [] (nestWorld.chain 5) := .core
  have hinner : Nests nestWorld.chain (failing 1 "core") [rethrowing] (nestWorld.chain 3) :=
    .afterPass (.composer (.boundary hcore))
  have hmiddle : Nests nestWorld.chain (failing 1 "core") [rethrowing, recovering]
      (nestWorld.chain 1) := .afterPass (.composer (.boundary hinner))
  exact .composer (.afterPass (.composer (.boundary hmiddle)))

theorem onward_ne_value {levels : List Level} (h : levels ≠ []) (o : Outcome) (v : Json) :
    onward x k levels o ≠ .value v := by
  cases levels with
  | nil => exact absurd rfl h
  | cons L outer => cases o <;> nofun

theorem InTurn.eq_of_ended {v : Json} (h : InTurn a e s) (hfocus : e.focus = some (a, .value v))
    (hs : s.focus = some (a, p)) : p = .value v := by
  rcases ReflTransGen.cases_head h with rfl | ⟨t, ⟨r, hr, rfl⟩, hrest⟩
  · rw [hfocus] at hs
    cases hs
    rfl
  · -- the process has given its turn away
    rw [hfocus] at hr
    cases hr
    have hidle : (e.advance a (.value v)).focus = none := by cases a <;> rfl
    rcases ReflTransGen.cases_head hrest with rfl | ⟨t, ⟨r, hr, -⟩, -⟩
    · rw [hidle] at hs
      cases hs
    · rw [hidle] at hr
      cases hr

/-- The innermost handler gets the failure of the script and fails, the next one gets that failure
and resumes, and the outermost one is not called. -/
theorem nested_boundaries_nestWorld :
    (∃ levels k' s e o, levels.map Level.handler = [rethrowing, recovering, recovering] ∧
      EndsAt (.root 0) (fun p => p) (onward 0 k' levels)
        ((failing 1 "core").call 0 (entrance levels leaf)) e o ∧
      ReflTransGen Next s e ∧
      ∀ f, o = .error f → Escalates (.root 0) 0 k' leaf levels f e (run 45 (started nestWorld 0))
        (value .null)) ∧
    (run 45 (started nestWorld 0)).world.events = [.note (.str "core"),
      .failed (.failure (.raised .value (.str "core")) (some 0)) .null,
      .failed (.failure (.raised .runtime (.str "again")) (some 0)) .null] := by
  refine ⟨?_, rfl⟩
  obtain ⟨k, hfocus⟩ : ∃ k, (run 1 (started nestWorld 0)).focus =
      some (.root 0, ((Link.composer 0).call 0 leaf).andThen k) := ⟨_, rfl⟩
  have hq : (run 44 (run 1 (started nestWorld 0))).focus = some (.root 0, value .null) := rfl
  obtain ⟨s, levels, k', hturn, hcore, hhandlers, -, -, hcourse⟩ :=
    nested_boundaries (reachable_run_started nestWorld 0 1) nests_nestWorld hfocus
  have hne : levels ≠ [] := by
    rintro rfl
    cases hhandlers
  rcases hturn.passes (reaches_run 44 (run 1 (started nestWorld 0))) with hback | hlater
  · cases hback.eq_of_ended hq hcore
  rcases hcourse _ _ hlater hq with ⟨p, -, hp⟩ | ⟨e, o, he, -, hend, hescalates⟩
  · exact absurd hp.symm (andThen_ne_value (onward_ne_value hne) p _)
  · exact ⟨levels, k', s, e, o, hhandlers, hend, he, hescalates⟩

end Machine

end UpdateDispatch
