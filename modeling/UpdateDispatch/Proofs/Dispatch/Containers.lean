import UpdateDispatch.Proofs.Dispatch.Building

/-!
# Containers

A container is asked for its function when it is flattened, and that is noted (`World.accesses`).
What is given to a registration in place, it flattens itself (`Step.inPlace`); what is left to a
link to choose from is flattened by the link, whenever it has chosen (`Step.offered`). Expressions
may flatten containers too, while they are evaluated (`Expr.flattened`).

`Terms` are what a program may keep to: which containers it gives in place only, and what its
scripts register. `Spares` says that it does: no link has these containers to choose from. There are
terms that any program keeps to (`Step.spares_any`, `Link.spares_any`).
-/

namespace UpdateDispatch

/-! ## Who asks -/

/-- The container that was asked, if the event is that. -/
def Event.container? : Event → Option String
  | .accessed container => some container
  | _ => none

/-- The containers that were asked for their functions, in order. -/
def World.accesses (w : World) : List String := w.events.filterMap Event.container?

/-- The name of a container. -/
def Middleware.container? : Middleware → Option String
  | .container name _ => some name
  | _ => none

/-- What is given where middleware is expected, without the container around it. -/
def Middleware.bare : Middleware → Middleware
  | .container _ inner => .link inner
  | m => m

namespace Expr

/-- The container that the expression denotes, if it is one. Registers hold none. -/
def container? : Expr → Option String
  | .container name _ => some name
  | _ => none

/-- The expression without the container around it. -/
def bare : Expr → Expr
  | .container _ inner => inner
  | e => e

/-- The containers that the expression flattens while it is evaluated, in order. -/
def flattened : Expr → List String
  | .flat e => e.flattened ++ e.container?.toList
  | .joined first second =>
    (first.flattened ++ first.container?.toList) ++ (second.flattened ++ second.container?.toList)
  | .container _ inner => inner.flattened ++ inner.container?.toList
  | _ => []

end Expr

/-- The expressions of a specification. -/
def Spec.exprs : Spec → List Expr
  | .one e => [e]
  | .many es => es

namespace Registration

/-- The middleware that is given in place: the registration flattens it itself. -/
def inPlace : Registration → List Expr
  | .use mw | .fork mw | .filter _ mw | .drop _ mw | .boundary _ _ mw | .listen _ mw => mw
  | .branch .. | .lazily .. | .route .. => []

/-- The middleware that is left to the link of the registration to choose from. -/
def offered : Registration → List Expr
  | .branch _ yes no => yes.exprs ++ no.exprs
  | .lazily _ table default => table.flatMap (·.2.exprs) ++ default.exprs
  | .route _ handlers fallback => handlers.flatMap (·.2.exprs) ++ fallback.exprs
  | _ => []

/-- The expressions that are evaluated before the call. A table is not: its rows are what a function
of the context does. -/
def arguments (r : Registration) : List Expr :=
  match r with
  | .lazily .. => []
  | .branch .. | .route .. => r.offered
  | _ => r.inPlace

/-- The actions of the handler that is registered. -/
def handling : Registration → List Action
  | .boundary actions _ _ => actions
  | _ => []

end Registration

namespace Step

/-- The middleware that is given in place. -/
def inPlace : Step → List Expr
  | .create _ mw => mw
  | .register _ _ r => r.inPlace
  | _ => []

/-- The middleware that is left to a link to choose from. -/
def offered : Step → List Expr
  | .register _ _ r => r.offered
  | _ => []

/-- The expressions that are evaluated before the call. -/
def arguments : Step → List Expr
  | .create _ mw => mw
  | .register _ _ r => r.arguments
  | _ => []

/-- The actions of the handler that is registered. -/
def handling : Step → List Action
  | .register _ _ r => r.handling
  | .handle _ actions _ => actions
  | _ => []

end Step

/-! ## Containers that are given in place only -/

/-- What a program may keep to: these containers are given in place only, and scripts make no other
registrations than these. -/
structure Terms where
  names : List String
  steps : Step → Prop

/-- What any program keeps to. -/
def Terms.any : Terms where
  names := []
  steps _ := True

mutual

/-- Neither does the expression flatten one of these containers, nor does it denote one, and its
scripts give them in place only. -/
inductive Expr.Spares (K : Terms) : Expr → Prop
  | pass : Expr.Spares K .pass
  | named (register : String) : Expr.Spares K (.named register)
  | value (v : Json) : Expr.Spares K (.value v)
  | flat {e : Expr} (h : Expr.Spares K e) : Expr.Spares K (.flat e)
  | joined {first second : Expr} (h : Expr.Spares K first) (h' : Expr.Spares K second) :
      Expr.Spares K (.joined first second)
  | container {name : String} {inner : Expr} (hname : name ∉ K.names) (h : Expr.Spares K inner) :
      Expr.Spares K (.container name inner)
  | script {actions : List Action} {plain : Bool}
      (h : ∀ s, .step s ∈ actions → Step.Scripted K s) : Expr.Spares K (.script actions plain)

/-- The step gives these containers in place only. -/
inductive Step.Spares (K : Terms) : Step → Prop
  | intro {s : Step} (inPlace : ∀ e ∈ s.inPlace, Expr.Spares K e.bare)
      (offered : ∀ e ∈ s.offered, Expr.Spares K e)
      (handling : ∀ s', .step s' ∈ s.handling → Step.Scripted K s') : Step.Spares K s

/-- A script may make the step. -/
inductive Step.Scripted (K : Terms) : Step → Prop
  | intro {s : Step} (hs : K.steps s) (h : Step.Spares K s) : Step.Scripted K s

end

/-- The script may make all its steps. -/
def Script.Spares (K : Terms) (s : Script) : Prop := ∀ st, .step st ∈ s.actions → st.Scripted K

/-- No expression of the specification flattens or denotes one of these containers. -/
def Spec.Spares (K : Terms) (s : Spec) : Prop := ∀ e ∈ s.exprs, e.Spares K

mutual

/-- The link has none of these containers to choose from. -/
inductive Link.Spares (K : Terms) : Link → Prop
  | pass : Link.Spares K .pass
  | script {s : Script} (h : s.Spares K) : Link.Spares K (.script s)
  | composer (id : Nat) : Link.Spares K (.composer id)
  | concat {first second : Link} (h : Link.Spares K first) (h' : Link.Spares K second) :
      Link.Spares K (.concat first second)
  | lazily {c : Choice} (h : Choice.Spares K c) : Link.Spares K (.lazily c)
  | fork (side : Nat) : Link.Spares K (.fork side)
  | boundary (inner : Nat) {handler : Script} (h : handler.Spares K) :
      Link.Spares K (.boundary inner handler)

/-- The middleware is none of these containers, and its links have none of them to choose from. -/
inductive Middleware.Spares (K : Terms) : Middleware → Prop
  | link {l : Link} (h : Link.Spares K l) : Middleware.Spares K (.link l)
  | composer (id : Nat) : Middleware.Spares K (.composer id)
  | container {name : String} {inner : Link} (hname : name ∉ K.names) (h : Link.Spares K inner) :
      Middleware.Spares K (.container name inner)
  | other (v : Json) : Middleware.Spares K (.other v)

/-- None of these containers is there to choose from. -/
inductive Choice.Spares (K : Terms) : Choice → Prop
  | branch {p : Probe Condition} {negated : Bool} {yes no : List Middleware}
      (hyes : ∀ m ∈ yes, Middleware.Spares K m) (hno : ∀ m ∈ no, Middleware.Spares K m) :
      Choice.Spares K (.branch p negated yes no)
  | route {router : Probe Condition} {handlers : List (Json × Option (List Middleware))}
      {fallback : List Middleware}
      (hhandlers : ∀ key mw, (key, some mw) ∈ handlers → ∀ m ∈ mw, Middleware.Spares K m)
      (hfallback : ∀ m ∈ fallback, Middleware.Spares K m) :
      Choice.Spares K (.route router handlers fallback)
  | table {factory : Probe Condition} {specs : List (String × Spec)} {default : Spec}
      (hspecs : ∀ s ∈ specs, s.2.Spares K) (hdefault : default.Spares K) :
      Choice.Spares K (.table factory specs default)

end

section Spares

variable {K : Terms} {e : Expr} {m : Middleware}

theorem Expr.Spares.bare (h : e.Spares K) : e.bare.Spares K := by
  cases h with
  | container _ h => exact h
  | pass => exact .pass
  | named register => exact .named register
  | value v => exact .value v
  | flat h => exact .flat h
  | joined h h' => exact .joined h h'
  | script h => exact .script h

theorem Expr.Spares.notMem (h : e.Spares K) : ∀ name ∈ e.container?, name ∉ K.names := by
  cases h with
  | container hname _ =>
    rintro _ ⟨⟩
    exact hname
  | _ => exact nofun

/-- Those that an expression asks when it is flattened as well. -/
theorem Expr.Spares.notMem_append (h : e.Spares K)
    (hflattened : ∀ name ∈ e.flattened, name ∉ K.names) :
    ∀ name ∈ e.flattened ++ e.container?.toList, name ∉ K.names := fun name hname =>
  (List.mem_append.mp hname).elim (hflattened name) fun hname =>
    h.notMem name (Option.mem_toList.mp hname)

theorem Expr.Spares.notMem_flattened :
    {e : Expr} → e.Spares K → ∀ name ∈ e.flattened, name ∉ K.names
  | .flat _, .flat h | .container _ _, .container _ h => h.notMem_append h.notMem_flattened
  | .joined _ _, .joined h h' => fun name hname =>
    (List.mem_append.mp hname).elim (h.notMem_append h.notMem_flattened name)
      (h'.notMem_append h'.notMem_flattened name)
  | .pass, _ | .named _, _ | .value _, _ | .script _ _, _ => nofun

theorem Middleware.Spares.bare (h : m.Spares K) : m.bare.Spares K := by
  cases h with
  | container _ h | link h => exact .link h
  | composer id => exact .composer id
  | other v => exact .other v

theorem Middleware.Spares.notMem (h : m.Spares K) : ∀ name ∈ m.container?, name ∉ K.names := by
  cases h with
  | container hname _ =>
    rintro _ ⟨⟩
    exact hname
  | _ => exact nofun

end Spares

/-! ## No containers at all -/

section Sizes

variable {e : Expr} {s : Step}

theorem Expr.sizeOf_bare_le (e : Expr) : sizeOf e.bare ≤ sizeOf e := by
  cases e with
  | container name inner =>
    rw [Expr.container.sizeOf_spec]
    simp only [bare]
    omega
  | _ => exact Nat.le_refl _

theorem Action.sizeOf_lt_of_mem {actions : List Action} (h : .step s ∈ actions) :
    sizeOf s < sizeOf actions := by
  have hlt := List.sizeOf_lt_of_mem h
  rw [Action.step.sizeOf_spec] at hlt
  omega

theorem Spec.sizeOf_lt_of_mem {spec : Spec} (h : e ∈ spec.exprs) : sizeOf e < sizeOf spec := by
  cases spec with
  | one e' =>
    rw [List.mem_singleton.mp h, Spec.one.sizeOf_spec]
    omega
  | many es =>
    have hlt : sizeOf e < sizeOf es := List.sizeOf_lt_of_mem h
    rw [Spec.many.sizeOf_spec]
    omega

theorem Spec.sizeOf_lt_of_mem_flatMap {α : Type} [SizeOf α] {table : List (α × Spec)}
    (h : e ∈ table.flatMap (·.2.exprs)) : sizeOf e < sizeOf table := by
  obtain ⟨⟨a, spec⟩, hmem, he⟩ := List.mem_flatMap.mp h
  have hspec : sizeOf e < sizeOf spec := Spec.sizeOf_lt_of_mem he
  have hrow := List.sizeOf_lt_of_mem hmem
  rw [Prod.mk.sizeOf_spec] at hrow
  omega

theorem Registration.sizeOf_lt_of_offered {r : Registration} (h : e ∈ r.offered) :
    sizeOf e < sizeOf r := by
  cases r with
  | branch p yes no =>
    rw [Registration.branch.sizeOf_spec]
    rcases List.mem_append.mp h with h | h
    all_goals
      have hlt := Spec.sizeOf_lt_of_mem h
      omega
  | lazily p table default =>
    rw [Registration.lazily.sizeOf_spec]
    rcases List.mem_append.mp h with h | h
    · have hlt := Spec.sizeOf_lt_of_mem_flatMap h
      omega
    · have hlt := Spec.sizeOf_lt_of_mem h
      omega
  | route p handlers fallback =>
    rw [Registration.route.sizeOf_spec]
    rcases List.mem_append.mp h with h | h
    · have hlt := Spec.sizeOf_lt_of_mem_flatMap h
      omega
    · have hlt := Spec.sizeOf_lt_of_mem h
      omega
  | _ => cases h

theorem Registration.sizeOf_lt_of_inPlace {r : Registration} (h : e ∈ r.inPlace) :
    sizeOf e < sizeOf r := by
  have hlt := List.sizeOf_lt_of_mem h
  cases r with
  | branch | lazily | route => cases h
  | _ =>
    simp only [inPlace] at hlt
    simp only [use.sizeOf_spec, fork.sizeOf_spec, filter.sizeOf_spec, drop.sizeOf_spec,
      boundary.sizeOf_spec, listen.sizeOf_spec]
    omega

theorem Registration.sizeOf_lt_of_handling {r : Registration} (h : .step s ∈ r.handling) :
    sizeOf s < sizeOf r := by
  have hlt := Action.sizeOf_lt_of_mem h
  cases r with
  | boundary =>
    simp only [handling] at hlt
    rw [boundary.sizeOf_spec]
    omega
  | _ => cases h

theorem Step.sizeOf_lt_of_inPlace (h : e ∈ s.inPlace) : sizeOf e < sizeOf s := by
  cases s with
  | create into mw =>
    have hlt : sizeOf e < sizeOf mw := List.sizeOf_lt_of_mem h
    rw [create.sizeOf_spec]
    omega
  | register on into r =>
    have hlt := Registration.sizeOf_lt_of_inPlace h
    rw [register.sizeOf_spec]
    omega
  | _ => cases h

theorem Step.sizeOf_lt_of_offered (h : e ∈ s.offered) : sizeOf e < sizeOf s := by
  cases s with
  | register on into r =>
    have hlt := Registration.sizeOf_lt_of_offered h
    rw [register.sizeOf_spec]
    omega
  | _ => cases h

theorem Step.sizeOf_lt_of_handling {s' : Step} (h : .step s' ∈ s.handling) :
    sizeOf s' < sizeOf s := by
  cases s with
  | register on into r =>
    have hlt := Registration.sizeOf_lt_of_handling h
    rw [register.sizeOf_spec]
    omega
  | handle on actions plain =>
    have hlt : sizeOf s' < sizeOf actions := Action.sizeOf_lt_of_mem h
    rw [handle.sizeOf_spec]
    omega
  | _ => cases h

theorem sizeOf_lt_of_mem_handlers {handlers : List (Json × Option (List Middleware))} {key : Json}
    {mw : List Middleware} {m : Middleware} (hmw : (key, some mw) ∈ handlers) (hm : m ∈ mw) :
    sizeOf m < sizeOf handlers := by
  have hrow := List.sizeOf_lt_of_mem hmw
  have hlt := List.sizeOf_lt_of_mem hm
  rw [Prod.mk.sizeOf_spec, Option.some.sizeOf_spec] at hrow
  omega

end Sizes

mutual

theorem Expr.spares_any (e : Expr) : e.Spares .any := by
  cases e with
  | pass => exact .pass
  | named register => exact .named register
  | value v => exact .value v
  | flat e => exact .flat e.spares_any
  | joined first second => exact .joined first.spares_any second.spares_any
  | container name inner => exact .container List.not_mem_nil inner.spares_any
  | script actions plain =>
    refine .script fun s hs => .intro trivial ?_
    have := Action.sizeOf_lt_of_mem hs
    exact s.spares_any
termination_by sizeOf e

theorem Step.spares_any (s : Step) : s.Spares .any :=
  .intro
    (fun e he =>
      have := (Expr.sizeOf_bare_le e).trans_lt (Step.sizeOf_lt_of_inPlace he)
      e.bare.spares_any)
    (fun e he =>
      have := Step.sizeOf_lt_of_offered he
      e.spares_any)
    fun s' hs' =>
      have := Step.sizeOf_lt_of_handling hs'
      .intro trivial s'.spares_any
termination_by sizeOf s

end

theorem Script.spares_any (s : Script) : s.Spares .any := fun st _ =>
  .intro trivial st.spares_any

theorem Spec.spares_any (s : Spec) : s.Spares .any := fun e _ => e.spares_any

mutual

theorem Link.spares_any : (l : Link) → l.Spares .any
  | .pass => .pass
  | .script s => .script s.spares_any
  | .composer id => .composer id
  | .concat first second => .concat first.spares_any second.spares_any
  | .lazily c => .lazily c.spares_any
  | .fork side => .fork side
  | .boundary inner handler => .boundary inner handler.spares_any
termination_by l => sizeOf l

theorem Middleware.spares_any : (m : Middleware) → m.Spares .any
  | .link l => .link l.spares_any
  | .composer id => .composer id
  | .container _ inner => .container List.not_mem_nil inner.spares_any
  | .other v => .other v
termination_by m => sizeOf m

theorem Choice.spares_any : (c : Choice) → c.Spares .any
  | .branch _ _ yes no => .branch (fun m _ => m.spares_any) fun m _ => m.spares_any
  | .route _ handlers fallback =>
    .route
      (fun _ _ hmw m hm =>
        have := sizeOf_lt_of_mem_handlers hmw hm
        m.spares_any)
      fun m _ => m.spares_any
  | .table _ specs default => .table (fun s _ => s.2.spares_any) default.spares_any
termination_by c => sizeOf c
decreasing_by
  all_goals first
    | (rw [Choice.route.sizeOf_spec]; omega)
    | decreasing_tactic

end

end UpdateDispatch
