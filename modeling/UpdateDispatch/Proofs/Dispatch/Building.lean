import UpdateDispatch.Dispatch.Chain
import UpdateDispatch.Proofs.Filter.Path
import UpdateDispatch.Proofs.Dispatch.Registrations

/-!
# What middleware is built of

A link that chooses its middleware by a table builds it anew for each context, out of expressions
and out of what the registers hold. `Build.Gives` says of such a computation what it can give. A
property that links inherit from the middleware they are made of (`Build.Composes`), and middleware
from the expressions that denote it (`Build.Denotes`), holds of all that is built.
-/

namespace UpdateDispatch

/-! ## What is chosen -/

theorem mem_of_handlerFor {handlers : List (Json × Option (List Middleware))} {key : Json}
    {mw : List Middleware} (h : handlerFor key handlers = some mw) :
    ∃ k, (k, some mw) ∈ handlers := by
  induction handlers with
  | nil => cases h
  | cons head rest ih =>
    obtain ⟨k, found⟩ := head
    rw [handlerFor] at h
    split at h
    · subst h
      exact ⟨k, List.mem_cons_self⟩
    · obtain ⟨k', hmem⟩ := ih h
      exact ⟨k', List.mem_cons_of_mem _ hmem⟩

theorem specFor_mem (v : Json) (table : List (String × Spec)) (default : Spec) :
    specFor v table default = default ∨ ∃ name, (name, specFor v table default) ∈ table := by
  unfold specFor
  split
  · next key =>
    rcases hfind : Named.find? key table with _ | s
    · exact .inl rfl
    · exact .inr ⟨key, Named.mem_of_find?_eq_some hfind⟩
  · exact .inl rfl

/-! ## What is built -/

namespace Build

variable {α β : Type} {rs : List (String × Middleware)} {P : α → Prop} {Q : β → Prop}

/-- With the registers `rs`, a computation gives only values of which `P` holds, and it leaves the
registers as they are. -/
def Gives (rs : List (String × Middleware)) (P : α → Prop) (b : Build α) : Prop :=
  ∀ w, w.registers = rs → (∀ a, (b.outcome w).1 = .ok a → P a) ∧ (b.outcome w).2.registers = rs

theorem gives_pure {a : α} (h : P a) : Gives rs P (pure a) := fun _ hw =>
  ⟨fun _ ha => Except.ok.inj ha ▸ h, hw⟩

theorem gives_throw (f : Fault) : Gives rs P (throw f : Build α) := fun _ hw => ⟨nofun, hw⟩

theorem Gives.bind {b : Build α} {k : α → Build β} (h : Gives rs P b)
    (hk : ∀ a, P a → Gives rs Q (k a)) : Gives rs Q (b >>= k) := by
  intro w hw
  rw [outcome_bind]
  obtain ⟨hvalue, hregisters⟩ := h w hw
  rcases hb : b.outcome w with ⟨f | a, w'⟩ <;> rw [hb] at hvalue hregisters
  · exact ⟨nofun, hregisters⟩
  · exact hk a (hvalue a rfl) w' hregisters

theorem gives_mapM {f : α → Build β} {as : List α} (h : ∀ a ∈ as, Gives rs Q (f a)) :
    Gives rs (fun bs => ∀ b ∈ bs, Q b) (as.mapM f) := by
  induction as with
  | nil => exact gives_pure nofun
  | cons a as ih =>
    obtain ⟨ha, has⟩ := List.forall_mem_cons.mp h
    rw [List.mapM_cons]
    exact ha.bind fun b hb => (ih has).bind fun bs hbs =>
      gives_pure (List.forall_mem_cons.mpr ⟨hb, hbs⟩)

theorem gives_get {k : World → Build β} (h : ∀ w, w.registers = rs → Gives rs Q (k w)) :
    Gives rs Q (get >>= k) := fun w hw => h w hw w hw

/-- What a function of the context is built to does not depend on the state. -/
theorem outcome_probe (p : Probe Listener) (w w' : World) :
    p.build.outcome w = ((p.build.outcome w').1, w) := by
  obtain ⟨delay, note, throws, l | v | ⟨name, equals⟩⟩ := p
  · rcases hl : l.condition with f | condition <;> simp only [Probe.build, hl] <;> rfl
  · rfl
  · rfl

/-- A property of middleware and a property of links, where the links of which middleware is made
inherit the one from the other. -/
structure Composes (M : Middleware → Prop) (L : Link → Prop) : Prop where
  pass : L .pass
  concat : ∀ {first second}, L first → L second → L (.concat first second)
  link : ∀ {l}, M (.link l) ↔ L l
  composer : ∀ {id}, M (.composer id) → L (.composer id)
  container : ∀ {name inner}, M (.container name inner) ↔ L inner
  other : ∀ v, M (.other v)

/-- The same with a property of expressions, which the middleware that they denote inherits if the
registers are `rs`. -/
structure Denotes (rs : List (String × Middleware)) (E : Expr → Prop) (M : Middleware → Prop)
    (L : Link → Prop) : Prop extends Composes M L where
  named : ∀ {register m}, E (.named register) → Named.find? register rs = some m → M m
  flat : ∀ {e}, E (.flat e) → E e
  joined : ∀ {first second}, E (.joined first second) → E first ∧ E second
  inner : ∀ {name e}, E (.container name e) → E e
  script : ∀ {actions plain}, E (.script actions plain) → L (.script { actions, plain })

section Composes

variable {E : Expr → Prop} {M : Middleware → Prop} {L : Link → Prop}

theorem Composes.gives_flatten (hM : Composes M L) {m : Middleware} (h : M m) :
    Gives rs L m.flatten := by
  cases m with
  | link l => exact gives_pure (hM.link.mp h)
  | composer id => exact gives_pure (hM.composer h)
  | container name inner =>
    have hasked : Gives rs (fun _ => True) (modify (World.record (.accessed name)) : Build Unit) :=
      fun _ hw => ⟨fun _ _ => trivial, hw⟩
    exact hasked.bind fun _ _ => gives_pure (hM.container.mp h)
  | other v => exact gives_throw _

theorem Composes.gives_composeAfter (hM : Composes M L) {first : Link} (hfirst : L first)
    {mw : List Middleware} (h : ∀ m ∈ mw, M m) : Gives rs L (composeAfter first mw) := by
  induction mw generalizing first with
  | nil => exact gives_pure hfirst
  | cons m rest ih =>
    obtain ⟨hm, hrest⟩ := List.forall_mem_cons.mp h
    exact (hM.gives_flatten hm).bind fun l hl => ih (hM.concat hfirst hl) hrest

theorem Composes.gives_compose (hM : Composes M L) {mw : List Middleware} (h : ∀ m ∈ mw, M m) :
    Gives rs L (compose mw) := by
  cases mw with
  | nil => exact gives_pure hM.pass
  | cons m rest =>
    obtain ⟨hm, hrest⟩ := List.forall_mem_cons.mp h
    exact (hM.gives_flatten hm).bind fun l hl => hM.gives_composeAfter hl hrest

theorem Composes.listed (hM : Composes M L) {m : Middleware} (h : M m) : ∀ n ∈ m.listed, M n := by
  unfold Middleware.listed
  split
  · next items =>
    intro n hn
    obtain ⟨v, -, rfl⟩ := List.mem_map.mp hn
    exact hM.other v
  · exact List.forall_mem_singleton.mpr h

theorem Denotes.gives_expr (hE : Denotes rs E M L) : {e : Expr} → E e → Gives rs M e.build
  | .pass, _ => gives_pure (hE.link.mpr hE.pass)
  | .named register, h => by
    refine gives_get fun w hw => ?_
    split
    · next m hfind => exact gives_pure (hE.named h (hw ▸ hfind))
    · exact gives_throw _
  | .value v, _ => gives_pure (hE.other v)
  | .flat e, h =>
    (hE.gives_expr (hE.flat h)).bind fun m hm => (hE.gives_flatten hm).bind fun l hl =>
      gives_pure (hE.link.mpr hl)
  | .joined first second, h =>
    (hE.gives_expr (hE.joined h).1).bind fun m hm => (hE.gives_flatten hm).bind fun l hl =>
      (hE.gives_expr (hE.joined h).2).bind fun m' hm' => (hE.gives_flatten hm').bind fun l' hl' =>
        gives_pure (hE.link.mpr (hE.concat hl hl'))
  | .container name inner, h =>
    (hE.gives_expr (hE.inner h)).bind fun m hm => (hE.gives_flatten hm).bind fun l hl =>
      gives_pure (hE.container.mpr hl)
  | .script actions plain, h => gives_pure (hE.link.mpr (hE.script h))

/-- What expressions denote inherits their property. -/
theorem Denotes.gives_spec (hE : Denotes rs E M L) {s : Spec}
    (h : match s with
      | .one e => E e
      | .many es => ∀ e ∈ es, E e) :
    Gives rs (fun mw => ∀ m ∈ mw, M m) s.build := by
  cases s with
  | one e => exact (hE.gives_expr h).bind fun m hm => gives_pure (hE.listed hm)
  | many es => exact gives_mapM fun e he => hE.gives_expr (h e he)

end Composes

end Build

end UpdateDispatch
