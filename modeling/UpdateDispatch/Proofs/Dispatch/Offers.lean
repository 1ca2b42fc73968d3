import UpdateDispatch.Proofs.Dispatch.Accesses
import UpdateDispatch.Proofs.Dispatch.Threads

/-!
# What a choice comes to

A link that chooses asks its probe, and for the answer it selects middleware: some that it has at
hand, or some that it makes of expressions (`Choice.select`). The containers of what is selected are
asked when it is made a chain (`Offer.asks_perform`), and that chain is entered.

A `Passage` is a call of such a link, inside of whatever waits for it.
-/

namespace UpdateDispatch

open Process

/-- Middleware that was selected: it is at hand, or it is made of expressions. -/
inductive Offer where
  | ready (mw : List Middleware)
  | made (s : Spec)

namespace Offer

/-- The middleware. -/
def build : Offer → Build (List Middleware)
  | ready mw => pure mw
  | made s => s.build

/-- The chain of the middleware. -/
def perform (o : Offer) : Build Link := o.build >>= compose

/-- The containers that are flattened while the middleware is made. -/
def flattened : Offer → List String
  | ready _ => []
  | made s => Build.flattenedAll s.exprs

/-- The containers among the middleware, each as often as it stands there. -/
def containers : Offer → List String
  | ready mw => mw.filterMap Middleware.container?
  | made s => Build.containersOf s.exprs

/-- None of these containers was selected. -/
def Spares (K : Terms) : Offer → Prop
  | ready mw => ∀ m ∈ mw, m.Spares K
  | made s => s.Spares K

variable {K : Terms} {o : Offer}

/-- What is selected is asked in the order in which it stands there, once for each occurrence. -/
theorem asks_perform (h : o.Spares K) :
    Build.Asks K (o.flattened ++ o.containers) (Link.Spares K) o.perform := by
  cases o with
  | ready mw => exact Build.asks_compose (.of_spares h)
  | made s =>
    exact (Build.asks_spec fun e he => (h e he).bare).bind fun ms hms => Build.asks_compose hms

theorem Spares.notMem (h : o.Spares K) :
    ∀ name ∈ o.flattened ++ o.containers, name ∉ K.names := by
  intro name hname
  cases o with
  | ready mw =>
    obtain ⟨m, hm, hname⟩ := List.mem_filterMap.mp hname
    exact (h m hm).notMem name hname
  | made s =>
    rcases List.mem_append.mp hname with hname | hname
    · obtain ⟨e, he, hname⟩ := List.mem_flatMap.mp hname
      exact (h e he).notMem_flattened name hname
    · exact Build.notMem_containersOf h name hname

theorem spares_any (o : Offer) : o.Spares .any := by
  cases o with
  | ready mw => exact fun m _ => m.spares_any
  | made s => exact s.spares_any

/-- How a link goes on with the chain of what it has selected. -/
def entered (x : Nat) (next : Process) : Except Fault Link → Process
  | .ok chain => enter chain x next fun o => (ended o).ignored
  | .error f => raised f

/-- What a link does with what it has selected. -/
def run (o : Offer) (x : Nat) (next : Process) : Process :=
  read fun w => write (fun _ => (o.perform.outcome w).2) (entered x next (o.perform.outcome w).1)

theorem building_perform (o : Offer) (x : Nat) (next : Process) :
    (building o.perform fun chain => .enter chain x next fun o => (ended o).ignored) =
      o.run x next := by
  refine congrArg Process.read (funext fun w => ?_)
  rcases o.perform.outcome w with ⟨f | chain, w'⟩ <;> rfl

end Offer

namespace Choice

/-- The function of the context that is asked. -/
def probe : Choice → Probe Condition
  | branch p _ _ _ => p
  | route router _ _ => router
  | table factory _ _ => factory

/-- What is selected for an answer. -/
def select (c : Choice) (v : Json) : Except Fault Offer :=
  match c with
  | branch _ negated yes no => .ok (.ready (if v.truthy != negated then yes else no))
  | route _ handlers fallback =>
    if v.isNull then .ok (.ready fallback)
    else v.asKey.map fun key => .ready ((handlerFor key handlers).getD fallback)
  | table _ specs default => v.asKey.map fun v => .made (specFor v specs default)

/-- How a link that chooses goes on when its probe has ended. -/
def after (c : Choice) (x : Nat) (next : Process) : Outcome → Process
  | .ok v =>
    match c.select v with
    | .ok o => o.run x next
    | .error f => raised f
  | .error f => raised f

/-- What a link that chooses does when its call is awaited. -/
def body (c : Choice) (x : Nat) (next : Process) : Process :=
  c.pick x fun mw =>
    building (mw >>= compose) fun chain => enter chain x next fun o => (ended o).ignored

theorem call_lazily (c : Choice) (x : Nat) (next : Process) :
    (Link.lazily c).call x next = deferred (c.body x next) := rfl

/-- It asks the probe, and goes on with the answer. -/
theorem body_eq (c : Choice) (x : Nat) (next : Process) :
    c.body x next = (c.probe.asked x).andThen (c.after x next) := by
  cases c with
  | branch p negated yes no =>
    refine (p.ask_eq x _).trans (congrArg (p.asked x).andThen (funext fun o => ?_))
    cases o with
    | error f => rfl
    | ok v => exact Offer.building_perform (.ready (if v.truthy != negated then yes else no)) x next
  | route p handlers fallback =>
    refine (p.ask_eq x _).trans (congrArg (p.asked x).andThen (funext fun o => ?_))
    cases o with
    | error f => rfl
    | ok v =>
      simp only [after, select]
      split
      · exact Offer.building_perform (.ready fallback) x next
      · rcases v.asKey with f | key
        · rfl
        · exact Offer.building_perform (.ready ((handlerFor key handlers).getD fallback)) x next
  | table p specs default =>
    refine (p.ask_eq x _).trans (congrArg (p.asked x).andThen (funext fun o => ?_))
    cases o with
    | error f => rfl
    | ok v =>
      simp only [after, select]
      rcases v.asKey with f | v
      · rfl
      · exact Offer.building_perform (.made (specFor v specs default)) x next

theorem Spares.select {K : Terms} {c : Choice} (h : c.Spares K) {v : Json} {o : Offer}
    (ho : c.select v = .ok o) : o.Spares K := by
  cases h with
  | branch hyes hno =>
    cases ho
    intro m hm
    split at hm
    · exact hyes m hm
    · exact hno m hm
  | @route router handlers fallback hhandlers hfallback =>
    rw [Choice.select] at ho
    split at ho
    · cases ho
      exact hfallback
    · rcases hkey : v.asKey with f | key <;> rw [hkey] at ho <;> cases ho
      intro m hm
      rcases hfound : handlerFor key handlers with _ | mw <;> rw [hfound] at hm
      · exact hfallback m hm
      · obtain ⟨k, hmem⟩ := mem_of_handlerFor hfound
        exact hhandlers k mw hmem m hm
  | @table factory specs default hspecs hdefault =>
    rw [Choice.select] at ho
    rcases hkey : v.asKey with f | key <;> rw [hkey] at ho <;> cases ho
    change (specFor key specs default).Spares K
    rcases specFor_mem key specs default with heq | ⟨name, hmem⟩
    · rw [heq]
      exact hdefault
    · exact hspecs _ hmem

end Choice

/-! ## Calls -/

/-- A call of a link that chooses, for a context and with a continuation, and what it stands in. -/
structure Passage where
  choice : Choice
  x : Nat
  next : Process
  around : Process → Process
  surrounds : Surrounds around

namespace Passage

/-- What the call starts with when it is awaited. -/
def start (T : Passage) : Process := T.around (T.choice.body T.x T.next)

/-- What the probe is asked by. -/
def asking (T : Passage) (p : Process) : Process :=
  T.around (p.andThen (T.choice.after T.x T.next))

/-- The probe of the call. -/
def asked (T : Passage) : Process := T.choice.probe.asked T.x

/-- What the call leads to. -/
def entered (T : Passage) (chain : Except Fault Link) : Process :=
  T.around (Offer.entered T.x T.next chain)

theorem start_eq (T : Passage) : T.start = T.asking T.asked :=
  congrArg T.around (T.choice.body_eq T.x T.next)

/-- The call inside of something that waits for its end. -/
def andThen (T : Passage) (k : Outcome → Process) : Passage :=
  { T with around := fun p => (T.around p).andThen k, surrounds := .andThen k T.surrounds }

/-- The call inside of something that waits for the end of a call. -/
def onCall (T : Passage) (k : Reply → Process) : Passage :=
  { T with around := fun p => (T.around p).onCall k, surrounds := .onCall k T.surrounds }

theorem around_run (T : Passage) (o : Offer) :
    T.around (o.run T.x T.next) = .read fun w =>
      .write (fun _ => (o.perform.outcome w).2) (T.entered (o.perform.outcome w).1) := by
  rw [Offer.run, T.surrounds.read]
  exact congrArg Process.read (funext fun w => T.surrounds.write _ _)

end Passage

end UpdateDispatch
