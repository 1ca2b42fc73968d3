import UpdateDispatch.Proofs.Dispatch.Accord
import UpdateDispatch.Scenario

/-!
# What a dispatcher responds

A dispatcher gets commands one after the other: registrations, and dispatches of updates through its
bots, its composers or a chain made for the purpose. `Responds` says what comes out of each of them,
the answer, what was noted and logged, and all contexts, whatever number of steps it takes.

Two variants of a state look the same (`Variants.Exact`) if they differ in nothing but their
composers and registers, which correspond. They respond the same (`Variants.Exact.responds`).
-/

namespace UpdateDispatch

open Relation Machine Process

/-- The run of a process comes to its end in the state `w'`, with the fault `f` if there is one, and
`K` holds of all states on the way. -/
structure Performs (K : World → Prop) (w : World) (p : Process) (w' : World) (f : Option Fault) :
    Prop where
  ends : EndsWith (ofRoots w [p]) w' f
  kept : ∀ m, ReflTransGen Goes (ofRoots w [p]) m → K m.world

namespace Command

/-- The answer for a process that is run to its end: what is read off the state then, or the fault
that it raises. -/
inductive Performed (K : World → Prop) (w : World) (p : Process)
    (answer : World → Except Fault Answer) : Except Fault Answer → World → Prop
  | returns {w' : World} (h : Performs K w p w' none) : Performed K w p answer (answer w') w'
  | raises {w' : World} {f : Fault} (h : Performs K w p w' (some f)) :
      Performed K w p answer (.error f) w'

/-- The answer to a command that registers or dispatches, and the state after it. `K` holds of all
states that the runs of its processes come to. -/
def Answers (K : World → Prop) (c : Command) (w : World) (a : Except Fault Answer) (w' : World) :
    Prop :=
  match c with
  | .register s => (do Build.step s; pure Answer.nothing : Build Answer).outcome w = (a, w')
  | .traverse mw update =>
    let x := w.contexts.length
    let w := w.addContext { update, me := w.me }
    match (do (← mw.build).flatten : Build Link).outcome w with
    | (.error f, w) => (.error f, w) = (a, w')
    | (.ok l, w) => Performed K w (l.run x) (fun w => .ok (.matched (w.context x).matched)) a w'
  | .dispatch on update =>
    match (Build.composerNamed on).outcome w with
    | (.error f, w) => (.error f, w) = (a, w')
    | (.ok id, w) =>
      let x := w.contexts.length
      Performed K w (Bot.handleUpdate id update) (fun w => do
        .ok (.handled (← (w.context x).literal) (w.context x).matched)) a w'
  | .dispatchAll on updates =>
    match (Build.composerNamed on).outcome w with
    | (.error f, w) => (.error f, w) = (a, w')
    | (.ok id, w) => Performed K w (Bot.handleUpdates id updates) (fun _ => .ok .nothing) a w'
  | _ => False

theorem answers_dispatch {K : World → Prop} {on : String} {update : Json} {id : Nat} {w v : World}
    (hon : (Build.composerNamed on).outcome w = (.ok id, w))
    (h : Performs K w (Bot.handleUpdate id update) v none) :
    (dispatch on update).Answers K w (do
      .ok (.handled (← (v.context w.contexts.length).literal)
        (v.context w.contexts.length).matched)) v := by
  simp only [Answers, hon]
  exact .returns h

theorem answers_traverse {K : World → Prop} {mw : Expr} {update : Json} {l : Link} {w v : World}
    (hmw : (do (← mw.build).flatten : Build Link).outcome (w.addContext { update, me := w.me }) =
      (.ok l, w.addContext { update, me := w.me }))
    (h : Performs K (w.addContext { update, me := w.me }) (l.run w.contexts.length) v none) :
    (traverse mw update).Answers K w (.ok (.matched (v.context w.contexts.length).matched)) v := by
  simp only [Answers, hmw]
  exact .returns h

end Command

/-- What comes out of commands that are given in order, and the contexts after each of them. -/
inductive Responds (K : World → Prop) :
    World → List Command → List (Report × List Context) → Prop
  | nil (w : World) : Responds K w [] []
  | cons {w w' : World} {c : Command} {a : Except Fault Answer} {cs : List Command}
      {rs : List (Report × List Context)} (h : c.Answers K w.fresh a w')
      (hrest : Responds K w' cs rs) :
      Responds K w (c :: cs)
        (({ answer := a, events := w'.events, notices := w'.notices }, w'.contexts) :: rs)

namespace Variants

variable {V : Variants} {N : Numbers} {w w' : World}

variable (V) in
/-- Variants of a state that look the same. -/
structure Exact (N : Numbers) (w w' : World) : Prop where
  stores : V.Stores w w'
  client : w'.client = w.client
  contexts : w'.contexts = w.contexts
  marks : Flags N.marks w.marks w'.marks
  events : w'.events = w.events
  notices : w'.notices = w.notices

theorem views_exact : V.Views V.Exact where
  basis _ :=
    { stores := fun h => h.stores
      accessed := fun h name => { h with
        stores := { h.stores with }
        events := congrArg (· ++ [Event.accessed name]) h.events }
      setComposers := fun h _ _ hstores => { h with stores := hstores }
      setRegisters := fun h _ _ hstores => { h with stores := hstores } }
  client h := h.client
  contexts h := h.contexts
  marked h hi := h.marks.getD hi
  guard h _ _ := { h with }
  record h e := { h with stores := { h.stores with }, events := congrArg (· ++ [e]) h.events }
  log h n := { h with stores := { h.stores with }, notices := congrArg (· ++ [n]) h.notices }
  setContext h x c := { h with
    stores := { h.stores with }
    contexts := congrArg (·.set x c) h.contexts }
  addContext h c := { h with
    stores := { h.stores with }
    contexts := congrArg (· ++ [c]) h.contexts }
  setMark h hi _ := { h with stores := { h.stores with }, marks := h.marks.set hi rfl }
  addMark h := { h with stores := { h.stores with }, marks := h.marks.add rfl }

/-- At the start of a command nothing is noted or logged, and there are no marks. -/
theorem Exact.fresh (h : V.Exact N w w') : V.Exact {} w.fresh w'.fresh where
  stores := { h.stores with }
  client := h.client
  contexts := h.contexts
  marks := .nil _ _ _
  events := rfl
  notices := rfl

/-- A process that is run to its end in one variant is so in the other one. -/
theorem Exact.performs (hV : V.Faithful V.Exact) (halone : ∀ b, ¬V.beside b)
    (hw : V.Exact {} w w') {p p' : Process} (hp : V.Later V.Exact {} p p') {v : World}
    {f : Option Fault} (h : Performs V.kept w p v f) :
    ∃ N v', Performs (fun _ => True) w' p' v' f ∧ V.Exact N v v' := by
  obtain ⟨N, v', -, hend, hv⟩ :=
    (accord_ofRoots hw rfl hp).exists_endsWith views_exact hV halone h.kept h.ends
  exact ⟨N, v', ⟨hend, fun _ _ => trivial⟩, hv⟩

theorem Exact.performed (hV : V.Faithful V.Exact) (halone : ∀ b, ¬V.beside b)
    (hw : V.Exact {} w w') {p p' : Process} (hp : V.Later V.Exact {} p p')
    {answer answer' : World → Except Fault Answer}
    (hanswer : ∀ {N v v'}, V.Exact N v v' → answer' v' = answer v) {a : Except Fault Answer}
    {v : World} (h : Command.Performed V.kept w p answer a v) :
    ∃ N v', Command.Performed (fun _ => True) w' p' answer' a v' ∧ V.Exact N v v' := by
  cases h with
  | returns h =>
    obtain ⟨N, v', hend, hv⟩ := hw.performs hV halone hp h
    exact ⟨N, v', hanswer hv ▸ .returns hend, hv⟩
  | raises h =>
    obtain ⟨N, v', hend, hv⟩ := hw.performs hV halone hp h
    exact ⟨N, v', .raises hend, hv⟩

/-- A command has the same answer in two variants. -/
theorem Exact.answers (hV : V.Faithful V.Exact) (halone : ∀ b, ¬V.beside b)
    (hw : V.Exact {} w w') {c : Command} {a : Except Fault Answer} {v : World}
    (h : c.Answers V.kept w a v) :
    ∃ N v', c.Answers (fun _ => True) w' a v' ∧ V.Exact N v v' := by
  have hR := views_exact (V := V)
  cases c with
  | register s =>
    have hstep := (builds_step (hR.basis {}) s).bind fun _ _ _ =>
      builds_pure (S := Eq) (a := Answer.nothing) rfl
    simp only [Command.Answers] at h ⊢
    rcases hstep.cases hw with ⟨f, u, u', hb, hb', hu⟩ | ⟨_, _, u, u', hb, hb', rfl, hu⟩
    · cases hb.symm.trans h
      exact ⟨{}, u', hb', hu⟩
    · cases hb.symm.trans h
      exact ⟨{}, u', hb', hu⟩
  | traverse mw update =>
    have hflat := (builds_expr (hR.basis {}) mw).bind fun _ _ hm =>
      builds_flatten (hR.basis {}) hm
    have hadd : V.Exact {} (w.addContext { update, me := w.me })
        (w'.addContext { update, me := w'.me }) := by
      rw [hw.stores.me]
      exact hR.addContext hw _
    have hx : w'.contexts.length = w.contexts.length := congrArg List.length hw.contexts
    simp only [Command.Answers, hx] at h ⊢
    rcases hflat.cases hadd with ⟨f, u, u', hb, hb', hu⟩ | ⟨l, l', u, u', hb, hb', hl, hu⟩
    · rw [hb] at h
      cases h
      rw [hb']
      exact ⟨{}, u', rfl, hu⟩
    · rw [hb] at h
      rw [hb']
      refine hu.performed hV halone ((later_call hR hl handed_leaf).ignored hR) (fun hv => ?_) h
      rw [context_eq hR hv]
  | dispatch on update =>
    simp only [Command.Answers] at h ⊢
    rcases (builds_composerNamed (hR.basis {}) on).cases hw with
      ⟨f, u, u', hb, hb', hu⟩ | ⟨id, id', u, u', hb, hb', hid, hu⟩
    · rw [hb] at h
      cases h
      rw [hb']
      exact ⟨{}, u', rfl, hu⟩
    · rw [hb] at h
      rw [hb']
      refine hu.performed hV halone (later_handleUpdate hR hid update) (fun hv => ?_) h
      rw [congrArg List.length hu.contexts, context_eq hR hv]
  | dispatchAll on updates =>
    simp only [Command.Answers] at h ⊢
    rcases (builds_composerNamed (hR.basis {}) on).cases hw with
      ⟨f, u, u', hb, hb', hu⟩ | ⟨id, id', u, u', hb, hb', hid, hu⟩
    · rw [hb] at h
      cases h
      rw [hb']
      exact ⟨{}, u', rfl, hu⟩
    · rw [hb] at h
      rw [hb']
      exact hu.performed hV halone (later_handleUpdates hR hid updates) (fun _ => rfl) h
  | _ => exact absurd h id

/-- Two variants that look the same at the start of a command respond the same. -/
theorem Exact.responds (hV : V.Faithful V.Exact) (halone : ∀ b, ¬V.beside b)
    (hw : V.Exact {} w.fresh w'.fresh) {cs : List Command} {rs : List (Report × List Context)}
    (h : Responds V.kept w cs rs) : Responds (fun _ => True) w' cs rs := by
  induction h generalizing w' with
  | nil => exact .nil w'
  | cons h _ ih =>
    obtain ⟨N, v', hanswers, hv⟩ := hw.answers hV halone h
    have hrest := ih hv.fresh
    rw [← hv.events, ← hv.notices, ← hv.contexts]
    exact .cons hanswers hrest

end Variants

end UpdateDispatch
