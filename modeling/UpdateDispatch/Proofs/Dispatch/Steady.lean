import UpdateDispatch.Proofs.Dispatch.Building
import UpdateDispatch.Proofs.Dispatch.Scripting

/-!
# Middleware that registers nothing

A script is `Steady` if it registers nothing, and so is middleware without other scripts. What is
built of steady middleware is steady (`Build.gives_compose`, `Build.gives_spec`), and a steady
choice makes the same in two runs (`Choice.paired_of_steady`).
-/

namespace UpdateDispatch

/-! ## Steadiness -/

/-- The script registers nothing. -/
def Script.Steady (s : Script) : Prop := ∀ a ∈ s.actions, ∀ r, a ≠ .step r

/-- The expression denotes middleware that registers nothing, if the registers hold no other. -/
inductive Expr.Steady : Expr → Prop
  | pass : Steady .pass
  | named (register : String) : Steady (.named register)
  | value (v : Json) : Steady (.value v)
  | flat {e : Expr} (h : Steady e) : Steady (.flat e)
  | joined {first second : Expr} (h : Steady first) (h' : Steady second) :
      Steady (.joined first second)
  | container (name : String) {inner : Expr} (h : Steady inner) : Steady (.container name inner)
  | script {actions : List Action} {plain : Bool} (h : Script.Steady { actions, plain }) :
      Steady (.script actions plain)

/-- The expressions denote middleware that registers nothing, if the registers hold no other. -/
inductive Spec.Steady : Spec → Prop
  | one {e : Expr} (h : e.Steady) : Steady (.one e)
  | many {es : List Expr} (h : ∀ e ∈ es, e.Steady) : Steady (.many es)

mutual

/-- The link registers nothing. What it enters by a number is another matter. -/
inductive Link.Steady : Link → Prop
  | pass : Link.Steady .pass
  | script {s : Script} (h : s.Steady) : Link.Steady (.script s)
  | composer (id : Nat) : Link.Steady (.composer id)
  | concat {first second : Link} (h : Link.Steady first) (h' : Link.Steady second) :
      Link.Steady (.concat first second)
  | lazily {c : Choice} (h : Choice.Steady c) : Link.Steady (.lazily c)
  | fork (side : Nat) : Link.Steady (.fork side)
  | boundary (inner : Nat) {handler : Script} (h : handler.Steady) :
      Link.Steady (.boundary inner handler)

/-- The middleware registers nothing. -/
inductive Middleware.Steady : Middleware → Prop
  | link {l : Link} (h : Link.Steady l) : Middleware.Steady (.link l)
  | composer (id : Nat) : Middleware.Steady (.composer id)
  | container (name : String) {inner : Link} (h : Link.Steady inner) :
      Middleware.Steady (.container name inner)
  | other (v : Json) : Middleware.Steady (.other v)

/-- Nothing is registered by what there is to choose from. -/
inductive Choice.Steady : Choice → Prop
  | branch {p : Probe Condition} {negated : Bool} {yes no : List Middleware}
      (hyes : ∀ m ∈ yes, Middleware.Steady m) (hno : ∀ m ∈ no, Middleware.Steady m) :
      Choice.Steady (.branch p negated yes no)
  | route {router : Probe Condition} {handlers : List (Json × Option (List Middleware))}
      {fallback : List Middleware}
      (hhandlers : ∀ key mw, (key, some mw) ∈ handlers → ∀ m ∈ mw, Middleware.Steady m)
      (hfallback : ∀ m ∈ fallback, Middleware.Steady m) :
      Choice.Steady (.route router handlers fallback)
  | table {factory : Probe Condition} {specs : List (String × Spec)} {default : Spec}
      (hspecs : ∀ s ∈ specs, s.2.Steady) (hdefault : default.Steady) :
      Choice.Steady (.table factory specs default)

end

/-- A state in which neither a chain nor an error handler registers anything, and no middleware that
a register holds. -/
structure World.Steady (w : World) : Prop where
  chains : ∀ c ∈ w.composers, c.chain.Steady
  handlers : ∀ c ∈ w.composers, ∀ b ∈ c.bot, ∀ s ∈ b.handler, s.Steady
  registers : ∀ r ∈ w.registers, r.2.Steady

namespace World.Steady

variable {w : World}

theorem chain (h : w.Steady) (id : Nat) : (w.chain id).Steady := by
  unfold World.chain
  split
  · next hc => exact h.chains _ (List.mem_of_getElem? hc)
  · exact .pass

theorem handler (h : w.Steady) {id : Nat} {b : BotState} (hb : w.bot? id = some b) :
    ∀ s ∈ b.handler, s.Steady := by
  obtain ⟨c, hc, hbot⟩ := Option.bind_eq_some_iff.mp hb
  exact h.handlers c (List.mem_of_getElem? hc) b hbot

end World.Steady

theorem steady_of_handlerFor {handlers : List (Json × Option (List Middleware))}
    {mw : List Middleware}
    (h : ∀ key mw, (key, some mw) ∈ handlers → ∀ m ∈ mw, Middleware.Steady m) {key : Json}
    (hmw : handlerFor key handlers = some mw) : ∀ m ∈ mw, m.Steady :=
  let ⟨k, hmem⟩ := mem_of_handlerFor hmw
  h k mw hmem

theorem steady_specFor {table : List (String × Spec)} {default : Spec}
    (h : ∀ s ∈ table, s.2.Steady) (hdefault : default.Steady) (v : Json) :
    (specFor v table default).Steady := by
  rcases specFor_mem v table default with heq | ⟨name, hmem⟩
  · rw [heq]
    exact hdefault
  · exact h _ hmem

/-! ## What is built -/

namespace Build

variable {rs : List (String × Middleware)}

theorem composes_steady : Composes Middleware.Steady Link.Steady where
  pass := .pass
  concat := .concat
  link := ⟨fun | .link h => h, .link⟩
  composer _ := .composer _
  container := ⟨fun | .container _ h => h, .container _⟩
  other := .other

theorem gives_compose {mw : List Middleware} (h : ∀ m ∈ mw, m.Steady) :
    Gives rs Link.Steady (compose mw) := composes_steady.gives_compose h

theorem denotes_steady (hrs : ∀ r ∈ rs, r.2.Steady) :
    Denotes rs Expr.Steady Middleware.Steady Link.Steady where
  toComposes := composes_steady
  named _ hfind := hrs _ (Named.mem_of_find?_eq_some hfind)
  flat := fun | .flat h => h
  joined := fun | .joined h h' => ⟨h, h'⟩
  inner := fun | .container _ h => h
  script := fun | .script h => .script h

/-- Steady expressions give steady middleware. -/
theorem gives_spec (hrs : ∀ r ∈ rs, r.2.Steady) {s : Spec} (h : s.Steady) :
    Gives rs (fun mw => ∀ m ∈ mw, m.Steady) s.build := by
  refine (denotes_steady hrs).gives_spec ?_
  cases h with
  | one he => exact he
  | many hes => exact hes

/-- The same is built in two runs, from the same registers in the same way. If `Q` holds, then it is
steady where the state is. -/
structure Agrees (Q : Prop) (b b' : Build (List Middleware)) : Prop where
  same : b' = b
  respects : ∀ {R : World → World → Prop}, Sources R → b.Respects R
  gives : Q → ∀ w : World, w.Steady → b.Gives w.registers fun mw => ∀ m ∈ mw, m.Steady

theorem agrees_pure {Q : Prop} {mw : List Middleware} (h : Q → ∀ m ∈ mw, m.Steady) :
    Agrees Q (pure mw) (pure mw) :=
  ⟨rfl, fun _ => respects_pure _, fun hQ _ _ => gives_pure (h hQ)⟩

end Build

theorem Script.Steady.admitted {U : Usage} {s : Script} (h : s.Steady) (hU : ∀ v, U.notes v) :
    ∀ a ∈ s.actions, a.Admitted U :=
  fun a ha => ⟨fun _ => hU _, fun heq => absurd heq (h a ha _)⟩

/-- A steady choice makes the same in two runs. -/
theorem Choice.paired_of_steady {U : Usage} (hU : ∀ v, U.notes v) {Q : Prop} {c : Choice}
    (hc : Q → c.Steady) : c.Paired U (Build.Agrees Q) c := by
  cases c with
  | branch p negated yes no =>
    refine .branch (fun v _ => hU v) (Build.agrees_pure fun hQ => ?_)
      (Build.agrees_pure fun hQ => ?_)
    · cases hc hQ with
      | branch hyes _ => exact hyes
    · cases hc hQ with
      | branch _ hno => exact hno
  | route router handlers fallback =>
    have hfallback : Q → ∀ m ∈ fallback, m.Steady := fun hQ => by
      cases hc hQ with
      | route _ hfallback => exact hfallback
    refine .route (fun v _ => hU v) (Build.agrees_pure hfallback) fun key =>
      Build.agrees_pure fun hQ => ?_
    rcases hmw : handlerFor key handlers with _ | mw
    · exact hfallback hQ
    · cases hc hQ with
      | route hhandlers _ => exact steady_of_handlerFor hhandlers hmw
  | table factory specs default =>
    refine .table (fun v _ => hU v) fun v => ⟨rfl, fun hR => Build.respects_spec hR _, ?_⟩
    intro hQ w hw
    cases hc hQ with
    | table hspecs hdefault =>
      exact Build.gives_spec hw.registers (steady_specFor hspecs hdefault v)

end UpdateDispatch
