import UpdateDispatch.Proofs.Dispatch.Closed
import UpdateDispatch.Proofs.Dispatch.Containers

/-!
# What registrations ask

A step of registration that succeeds has asked the containers that its arguments flatten, and then
those that it was given in place, in order and each of them once; a step that fails has asked the
first ones of them (`Build.asks_step`). What is left to a link to choose from is not asked, and a
state in which no link has certain containers to choose from stays one, as long as they are given in
place only (`World.Spares`).
-/

namespace UpdateDispatch

/-! ## States -/

/-- Neither the chain nor the error handler has one of these containers to choose from. -/
structure Composer.Spares (K : Terms) (c : Composer) : Prop where
  chain : c.chain.Spares K
  handler : ∀ b ∈ c.bot, ∀ s ∈ b.handler, s.Spares K

/-- Nothing in the state has one of these containers to choose from, and the registers hold no
containers at all. -/
structure World.Spares (K : Terms) (w : World) : Prop where
  composers : ∀ c ∈ w.composers, c.Spares K
  registers : ∀ r ∈ w.registers, r.2.container? = none ∧ r.2.Spares K

namespace World

variable {K : Terms} {w : World}

theorem spares_start (client : Option Client) (me : Identity) :
    ({ client, me } : World).Spares K := ⟨nofun, nofun⟩

/-- Whatever may be chosen, nothing more is said of the state than that no register holds a
container. -/
theorem Spares.any (h : w.Spares K) : w.Spares .any where
  composers c _ := ⟨c.chain.spares_any, fun _ _ s _ => s.spares_any⟩
  registers r hr := ⟨(h.registers r hr).1, r.2.spares_any⟩

namespace Spares

theorem congr (h : w.Spares K) {v : World} (hcomposers : v.composers = w.composers)
    (hregisters : v.registers = w.registers) : v.Spares K :=
  ⟨hcomposers.symm ▸ h.composers, hregisters.symm ▸ h.registers⟩

theorem chain (h : w.Spares K) (id : Nat) : (w.chain id).Spares K := by
  unfold World.chain
  split
  · next hc => exact (h.composers _ (List.mem_of_getElem? hc)).chain
  · exact .pass

theorem handler (h : w.Spares K) {id : Nat} {b : BotState} (hb : w.bot? id = some b) :
    ∀ s ∈ b.handler, s.Spares K := by
  obtain ⟨c, hc, hbot⟩ := Option.bind_eq_some_iff.mp hb
  exact (h.composers c (List.mem_of_getElem? hc)).handler b hbot

theorem addComposer (h : w.Spares K) {c : Composer} (hc : c.Spares K) :
    (w.addComposer c).Spares K :=
  ⟨List.forall_mem_append.mpr ⟨h.composers, List.forall_mem_singleton.mpr hc⟩, h.registers⟩

theorem modifyComposer (h : w.Spares K) (id : Nat) {f : Composer → Composer}
    (hf : ∀ c, c.Spares K → (f c).Spares K) : (w.modifyComposer id f).Spares K := by
  refine ⟨fun c hc => ?_, h.registers⟩
  obtain ⟨i, hi⟩ := List.mem_iff_getElem?.mp hc
  rw [World.modifyComposer, List.getElem?_modify] at hi
  obtain ⟨c', hc', heq⟩ := Option.map_eq_some_iff.mp hi
  have hspares := h.composers c' (List.mem_of_getElem? hc')
  subst heq
  split
  · exact hf c' hspares
  · exact hspares

theorem append (h : w.Spares K) (id : Nat) {l : Link} (hl : l.Spares K) :
    (w.append id l).Spares K :=
  h.modifyComposer id fun _ hc => ⟨.concat hc.chain hl, hc.handler⟩

/-- The state of a bot may change in whatever way, but for its handler. -/
theorem modifyBot (h : w.Spares K) (id : Nat) {f : BotState → BotState}
    (hf : ∀ b, ∀ s ∈ (f b).handler, s ∈ b.handler ∨ s.Spares K) : (w.modifyBot id f).Spares K := by
  refine h.modifyComposer id fun c hc => ⟨hc.chain, fun b hb s hs => ?_⟩
  obtain ⟨b', hb', rfl⟩ := Option.map_eq_some_iff.mp hb
  exact (hf b' s hs).elim (hc.handler b' hb' s) fun h => h

theorem setRegister (h : w.Spares K) (register : String) {m : Middleware}
    (hm : m.container? = none ∧ m.Spares K) :
    { w with registers := Named.set register m w.registers }.Spares K := by
  refine ⟨h.composers, fun r hr => ?_⟩
  rcases Named.mem_set hr with rfl | hr
  · exact hm
  · exact h.registers r hr

end Spares
end World

/-! ## Middleware -/

/-- The middleware, which was given in place, has none of these containers to choose from, and these
are the containers in it, in order. -/
structure Given (K : Terms) (names : List String) (ms : List Middleware) : Prop where
  bare : ∀ m ∈ ms, m.bare.Spares K
  containers : ms.filterMap Middleware.container? = names

variable {K : Terms} {names names' : List String} {m : Middleware} {ms : List Middleware}
  {e : Expr}

theorem Middleware.Spares.of_bare (h : m.bare.Spares K)
    (hm : ∀ name ∈ m.container?, name ∉ K.names) : m.Spares K := by
  cases m with
  | container name inner =>
    cases h with
    | link h => exact .container (hm name rfl) h
  | link l | composer id | other v => exact h

theorem Given.spares (h : Given K names ms) (hnames : ∀ name ∈ names, name ∉ K.names) :
    ∀ m ∈ ms, m.Spares K := fun m hm =>
  .of_bare (h.bare m hm) fun name hname =>
    hnames name (h.containers ▸ List.mem_filterMap.mpr ⟨m, hm, hname⟩)

theorem given_nil : Given K [] [] := ⟨nofun, rfl⟩

theorem given_link {l : Link} (h : l.Spares K) : Given K [] [.link l] :=
  ⟨List.forall_mem_singleton.mpr (.link h), rfl⟩

theorem Given.cons (h : Given K names ms) (hm : m.bare.Spares K) :
    Given K (m.container?.toList ++ names) (m :: ms) where
  bare := List.forall_mem_cons.mpr ⟨hm, h.bare⟩
  containers := by rw [List.filterMap_eq_flatMap_toList, List.flatMap_cons,
    ← List.filterMap_eq_flatMap_toList, h.containers]

theorem Given.of_spares (h : ∀ m ∈ ms, m.Spares K) :
    Given K (ms.filterMap Middleware.container?) ms := ⟨fun m hm => (h m hm).bare, rfl⟩

/-- What a value stands for: a list stands for its items, and these are no containers. -/
theorem given_listed (h : m.bare.Spares K) : Given K m.container?.toList m.listed := by
  unfold Middleware.listed
  split
  · next items =>
    refine ⟨fun m hm => ?_, ?_⟩
    · obtain ⟨v, -, rfl⟩ := List.mem_map.mp hm
      exact .other v
    · rw [List.filterMap_map]
      exact List.filterMap_eq_nil_iff.mpr fun _ _ => rfl
  · have hgiven := given_nil.cons h
    rwa [List.append_nil] at hgiven

/-! ## Computations that ask -/

namespace Build

variable {α β : Type} {P : α → Prop} {Q : β → Prop} {b : Build α} {w : World}

/-- What has come of a computation from the state `w`. If it has succeeded, these containers were
asked, in this order, and `P` holds of what it gives; if it has failed, the first ones of them were
asked. -/
inductive Asked (K : Terms) (names : List String) (P : α → Prop) (w : World) :
    Except Fault α × World → Prop
  | ok {a : α} {w' : World} (hw : w'.Spares K) (hasked : w'.accesses = w.accesses ++ names)
      (ha : P a) : Asked K names P w (.ok a, w')
  | error {f : Fault} {w' : World} {asked : List String} (hw : w'.Spares K)
      (hasked : w'.accesses = w.accesses ++ asked) (hfirst : asked <+: names) :
      Asked K names P w (.error f, w')

/-- A computation that asks these containers, wherever it starts. -/
def Asks (K : Terms) (names : List String) (P : α → Prop) (b : Build α) : Prop :=
  ∀ w, w.Spares K → Asked K names P w (b.outcome w)

theorem asks_pure {a : α} (h : P a) : Asks K [] P (pure a) := fun _ hw =>
  .ok hw (List.append_nil _).symm h

theorem asks_throw (f : Fault) : Asks K names P (throw f : Build α) := fun _ hw =>
  .error hw (List.append_nil _).symm List.nil_prefix

theorem asks_modify {f : World → World} (hspares : ∀ w, w.Spares K → (f w).Spares K)
    (hasked : ∀ w, (f w).accesses = w.accesses ++ names) :
    Asks K names (fun _ => True) (modify f : Build Unit) := fun w hw =>
  .ok (hspares w hw) (hasked w) trivial

theorem asks_get {k : World → Build β} (h : ∀ w, w.Spares K → Asks K names Q (k w)) :
    Asks K names Q (get >>= k) := fun w hw => h w hw w hw

theorem asks_ofExcept (e : Except Fault α) : Asks K [] (fun _ => True) (ofExcept e) := by
  cases e with
  | ok a => exact asks_pure trivial
  | error f => exact asks_throw f

theorem Asks.imp (h : Asks K names P b) {P' : α → Prop} (himp : ∀ a, P a → P' a) :
    Asks K names P' b := fun w hw => by
  have hb := h w hw
  generalize b.outcome w = result at hb
  cases hb with
  | ok hw' hasked ha => exact .ok hw' hasked (himp _ ha)
  | error hw' hasked hfirst => exact .error hw' hasked hfirst

theorem Asks.bind {k : α → Build β} (h : Asks K names P b)
    (hk : ∀ a, P a → Asks K names' Q (k a)) : Asks K (names ++ names') Q (b >>= k) := by
  intro w hw
  rw [outcome_bind]
  have hb := h w hw
  rcases houtcome : b.outcome w with ⟨f | a, w₁⟩ <;> rw [houtcome] at hb
  · cases hb with
    | error hw₁ hasked hfirst =>
      exact .error hw₁ hasked (hfirst.trans (List.prefix_append _ _))
  · cases hb with
    | ok hw₁ hasked ha =>
      have hrest := hk a ha w₁ hw₁
      dsimp only
      generalize (k a).outcome w₁ = result at hrest
      cases hrest with
      | ok hw₂ hasked' ha' =>
        exact .ok hw₂ (by rw [hasked', hasked, List.append_assoc]) ha'
      | error hw₂ hasked' hfirst =>
        exact .error hw₂ (by rw [hasked', hasked, List.append_assoc])
          ((List.prefix_append_right_inj _).mpr hfirst)

/-- What follows asks nothing more. -/
theorem Asks.then {k : α → Build β} (h : Asks K names P b) (hk : ∀ a, P a → Asks K [] Q (k a)) :
    Asks K names Q (b >>= k) := List.append_nil names ▸ h.bind hk

/-! ### Middleware -/

theorem asks_flatten (h : m.bare.Spares K) :
    Asks K m.container?.toList (Link.Spares K) m.flatten := by
  cases m with
  | link l =>
    cases h with
    | link h => exact asks_pure h
  | composer id => exact asks_pure (.composer id)
  | container name inner =>
    cases h with
    | link h =>
      have hasked : ∀ w : World,
          (w.record (.accessed name)).accesses = w.accesses ++ [name] := fun w => by
        rw [World.accesses, World.record, List.filterMap_append]
        rfl
      have hspares : ∀ w : World, w.Spares K → (w.record (.accessed name)).Spares K := fun _ hw =>
        hw.congr rfl rfl
      exact (asks_modify hspares hasked).then fun _ _ => asks_pure h
  | other v => exact asks_throw _

theorem asks_composeAfter {first : Link} (hfirst : first.Spares K)
    (h : ∀ m ∈ ms, m.bare.Spares K) :
    Asks K (ms.filterMap Middleware.container?) (Link.Spares K) (composeAfter first ms) := by
  induction ms generalizing first with
  | nil => exact asks_pure hfirst
  | cons m rest ih =>
    obtain ⟨hm, hrest⟩ := List.forall_mem_cons.mp h
    rw [(Given.cons ⟨hrest, rfl⟩ hm).containers]
    exact (asks_flatten hm).bind fun l hl => ih (hfirst.concat hl) hrest

/-- The containers of a list are asked when it is made a chain, each as often as it stands there. -/
theorem asks_compose (h : Given K names ms) : Asks K names (Link.Spares K) (compose ms) := by
  obtain ⟨h, rfl⟩ := h
  cases ms with
  | nil => exact asks_pure .pass
  | cons m rest =>
    obtain ⟨hm, hrest⟩ := List.forall_mem_cons.mp h
    rw [(Given.cons ⟨hrest, rfl⟩ hm).containers]
    exact (asks_flatten hm).bind fun l hl => asks_composeAfter hl hrest

/-! ### Expressions -/

/-- The middleware denoted by an expression that is given in place: the same container, if it is
one. -/
def DenotedBy (K : Terms) (e : Expr) (m : Middleware) : Prop :=
  m.bare.Spares K ∧ m.container? = e.container?

theorem asks_expr : (e : Expr) → e.bare.Spares K → Asks K e.flattened (DenotedBy K e) e.build
  | .pass, _ => asks_pure ⟨.link .pass, rfl⟩
  | .named register, _ => by
    refine asks_get fun w hw => ?_
    split
    · next m hfind =>
      obtain ⟨hcontainer, hm⟩ := hw.registers _ (Named.mem_of_find?_eq_some hfind)
      exact asks_pure ⟨hm.bare, hcontainer⟩
    · exact asks_throw _
  | .value v, _ => asks_pure ⟨.other v, rfl⟩
  | .flat e, .flat h =>
    (asks_expr e h.bare).bind fun m hm => hm.2 ▸ (asks_flatten hm.1).then fun l hl =>
      asks_pure ⟨.link hl, rfl⟩
  | .joined first second, .joined h h' => by
    rw [Expr.flattened, List.append_assoc]
    exact (asks_expr first h.bare).bind fun m hm => hm.2 ▸ (asks_flatten hm.1).bind fun l hl =>
      (asks_expr second h'.bare).bind fun m' hm' => hm'.2 ▸ (asks_flatten hm'.1).then fun l' hl' =>
        asks_pure ⟨.link (hl.concat hl'), rfl⟩
  | .container name inner, h =>
    (asks_expr inner (Expr.Spares.bare h)).bind fun m hm => hm.2 ▸ (asks_flatten hm.1).then
      fun l hl => asks_pure ⟨.link hl, rfl⟩
  | .script actions plain, .script h => asks_pure ⟨.link (.script h), rfl⟩

/-- What expressions flatten while they are evaluated one after the other. -/
abbrev flattenedAll (es : List Expr) : List String := es.flatMap Expr.flattened

/-- The containers among the middleware that expressions denote. -/
abbrev containersOf (es : List Expr) : List String := es.filterMap Expr.container?

theorem asks_buildAll {es : List Expr} (h : ∀ e ∈ es, e.bare.Spares K) :
    Asks K (flattenedAll es) (Given K (containersOf es)) (buildAll es) := by
  unfold buildAll
  induction es with
  | nil => exact asks_pure given_nil
  | cons e rest ih =>
    obtain ⟨he, hrest⟩ := List.forall_mem_cons.mp h
    have hcontainers : containersOf (e :: rest) = e.container?.toList ++ containersOf rest := by
      rw [containersOf, List.filterMap_eq_flatMap_toList, List.flatMap_cons,
        ← List.filterMap_eq_flatMap_toList]
    rw [List.mapM_cons, flattenedAll, List.flatMap_cons]
    refine (asks_expr e he).bind fun m hm => (ih hrest).then fun ms hms => asks_pure ?_
    rw [hcontainers, ← hm.2]
    exact hms.cons hm.1

theorem containersOf_one (e : Expr) : containersOf (Spec.one e).exprs = e.container?.toList := by
  simp [Spec.exprs, List.filterMap_eq_flatMap_toList]

theorem asks_spec {s : Spec} (h : ∀ e ∈ s.exprs, e.bare.Spares K) :
    Asks K (flattenedAll s.exprs) (Given K (containersOf s.exprs)) s.build := by
  cases s with
  | one e =>
    have he : e.bare.Spares K := h e (List.mem_singleton_self e)
    rw [containersOf_one, Spec.exprs, flattenedAll, List.flatMap_singleton]
    exact (asks_expr e he).then fun m hm => asks_pure (hm.2 ▸ given_listed hm.1)
  | many es => exact asks_buildAll h

/-- A choice that may be none gives middleware to choose as well, or nothing. -/
theorem asks_buildChoice {s : Spec} (h : ∀ e ∈ s.exprs, e.bare.Spares K) :
    Asks K (flattenedAll s.exprs) (fun found => Given K (containersOf s.exprs) (found.getD []))
      s.buildChoice := by
  cases s with
  | one e =>
    have he : e.bare.Spares K := h e (List.mem_singleton_self e)
    rw [containersOf_one, Spec.exprs, flattenedAll, List.flatMap_singleton]
    refine (asks_expr e he).then fun m hm => ?_
    rw [← hm.2]
    split
    · exact asks_pure given_nil
    · exact asks_pure (given_listed hm.1)
  | many es => exact (asks_buildAll h).then fun ms hms => asks_pure hms

/-- Handlers are made one after the other, and those that are kept are what the choices gave. -/
theorem asks_handlersOf {handlers : List (Json × Spec)} {P : Option (List Middleware) → Prop}
    (h : ∀ handler ∈ handlers, Asks K (flattenedAll handler.2.exprs) P handler.2.buildChoice)
    {acc : List (Json × Option (List Middleware))} (hacc : ∀ handler ∈ acc, P handler.2) :
    Asks K (flattenedAll (handlers.flatMap (·.2.exprs)))
      (fun found => ∀ handler ∈ found, P handler.2) (handlersOf handlers acc) := by
  induction handlers generalizing acc with
  | nil => exact asks_pure hacc
  | cons handler rest ih =>
    obtain ⟨hhandler, hrest⟩ := List.forall_mem_cons.mp h
    rw [flattenedAll, List.flatMap_cons, List.flatMap_append]
    refine hhandler.bind fun found hfound =>
      (asks_ofExcept _).bind fun key _ => ih hrest fun handler hmem => ?_
    rcases mem_of_setHandler hmem with heq | hmem
    · exact heq ▸ hfound
    · exact hacc handler hmem

/-! ### What may be chosen -/

theorem notMem_containersOf {s : Spec} (h : s.Spares K) :
    ∀ name ∈ containersOf s.exprs, name ∉ K.names := by
  intro name hname
  obtain ⟨e, he, hname⟩ := List.mem_filterMap.mp hname
  exact (h e he).notMem name hname

theorem asks_offered {s : Spec} (h : s.Spares K) :
    Asks K (flattenedAll s.exprs) (fun ms => ∀ m ∈ ms, m.Spares K) s.build :=
  (asks_spec fun e he => (h e he).bare).imp fun _ hms => hms.spares (notMem_containersOf h)

/-- The middleware that a choice may make of a specification has none of these containers. -/
def Offers (K : Terms) (found : Option (List Middleware)) : Prop :=
  ∀ mw ∈ found, ∀ m ∈ mw, m.Spares K

theorem asks_offeredChoice {s : Spec} (h : s.Spares K) :
    Asks K (flattenedAll s.exprs) (Offers K) s.buildChoice := by
  refine (asks_buildChoice fun e he => (h e he).bare).imp fun found hfound => ?_
  rintro mw ⟨⟩
  exact hfound.spares (notMem_containersOf h)

/-! ### Combinators -/

theorem asks_newComposer {c : Composer} (hc : c.Spares K) :
    Asks K [] (fun _ => True) (newComposer c) :=
  asks_get fun _ _ => (asks_modify (fun _ hw => hw.addComposer hc)
    fun _ => (List.append_nil _).symm).then fun _ _ => asks_pure trivial

theorem spares_composer {l : Link} (hl : l.Spares K) : ({ chain := l } : Composer).Spares K :=
  ⟨hl, nofun⟩

theorem asks_composerOf (h : Given K names ms) :
    Asks K names (fun _ => True) (composerOf ms) :=
  (asks_compose h).then fun _ hl => asks_newComposer (spares_composer hl)

theorem asks_use (id : Nat) (h : Given K names ms) : Asks K names (fun _ => True) (use id ms) :=
  (asks_composerOf h).then fun child _ => (asks_modify (fun _ hw => hw.append id (.composer child))
    fun _ => (List.append_nil _).symm).then fun _ _ => asks_pure trivial

theorem asks_useLink (id : Nat) {l : Link} (h : l.Spares K) :
    Asks K [] (fun _ => True) (useLink id l) := asks_use id (given_link h)

/-- Middleware that is given in place is asked for a composer of its own, and the link that enters
this composer has nothing to be asked. -/
theorem asks_around (id : Nat) (h : Given K names ms) {l : Nat → Link}
    (hl : ∀ child, (l child).Spares K) :
    Asks K names (fun _ => True) (do
      let child ← composerOf ms
      let _ ← useLink id (l child)
      pure child) :=
  (asks_composerOf h).then fun child _ => (asks_useLink id (hl child)).then fun _ _ =>
    asks_pure trivial

theorem spares_gate (p : Probe Condition) (negated : Bool) (child : Nat) :
    (gate p negated child).Spares K :=
  .lazily (.branch (List.forall_mem_singleton.mpr (.composer child))
    (List.forall_mem_singleton.mpr (.link .pass)))

theorem asks_filter (id : Nat) (p : Probe Condition) (negated : Bool) (h : Given K names ms) :
    Asks K names (fun _ => True) (filter id p negated ms) :=
  asks_around id h (spares_gate p negated)

theorem asks_listen (id : Nat) (l : Listener) (h : Given K names ms) :
    Asks K names (fun _ => True) (listen id l ms) := by
  have hplace : Asks K names (fun _ => True) (placeListener id l ms) :=
    (asks_ofExcept l.condition).bind fun _ _ => asks_filter id _ false h
  refine asks_get fun w _ => ?_
  split
  · have hobserve : ∀ kinds, Asks K [] (fun _ => True)
        (modify (World.modifyBot id (observing kinds)) : Build Unit) := fun kinds =>
      asks_modify (fun _ hw => hw.modifyBot id fun _ _ hs => .inl hs)
        fun _ => (List.append_nil _).symm
    exact (asks_ofExcept _).bind fun kinds _ => (hobserve kinds).bind fun _ _ => hplace
  · exact hplace

theorem asks_probe (p : Probe Listener) : Asks K [] (fun _ => True) p.build := fun w hw => by
  rw [outcome_probe p w w]
  rcases (p.build.outcome w).1 with f | a
  · exact .error hw (List.append_nil _).symm List.nil_prefix
  · exact .ok hw (List.append_nil _).symm trivial

theorem spares_route {p : Probe Condition} {handlers : List (Json × Option (List Middleware))}
    {fallback : Option (List Middleware)} (hhandlers : ∀ handler ∈ handlers, Offers K handler.2)
    (hfallback : Offers K fallback) :
    (Link.lazily (.route p handlers (fallback.getD []))).Spares K := by
  refine .lazily (.route (fun key mw hmem => hhandlers (key, some mw) hmem mw rfl) ?_)
  cases fallback with
  | none => exact nofun
  | some mw => exact hfallback mw rfl

/-- The containers that a registration has asked when it has succeeded: those that its arguments
flatten, and then those that were given in place. -/
theorem asks_register (id : Nat) {r : Registration} (hplace : ∀ e ∈ r.inPlace, e.bare.Spares K)
    (hoffered : ∀ e ∈ r.offered, e.Spares K)
    (hhandling : ∀ s, .step s ∈ r.handling → s.Scripted K) :
    Asks K (flattenedAll r.arguments ++ containersOf r.inPlace) (fun _ => True)
      (register id r) := by
  cases r with
  | use es => exact (asks_buildAll hplace).bind fun _ hms => asks_use id hms
  | fork es => exact (asks_buildAll hplace).bind fun _ hms => asks_around id hms fun _ => .fork _
  | boundary actions plain es =>
    exact (asks_buildAll hplace).bind fun _ hms => asks_around id hms fun _ => .boundary _ hhandling
  | listen l es => exact (asks_buildAll hplace).bind fun _ hms => asks_listen id l hms
  | filter p es | drop p es =>
    exact (asks_buildAll hplace).bind fun _ hms => (asks_probe p).bind fun q _ =>
      asks_filter id q _ hms
  | branch p yes no =>
    obtain ⟨hyes, hno⟩ := List.forall_mem_append.mp hoffered
    rw [Registration.arguments, Registration.inPlace, Registration.offered, flattenedAll,
      List.flatMap_append, containersOf, List.filterMap_nil, List.append_nil]
    exact (asks_probe p).bind fun q _ => (asks_offered hyes).bind fun yes hyes =>
      (asks_offered hno).then fun no hno => asks_useLink id (.lazily (.branch hyes hno))
  | lazily p table default =>
    obtain ⟨htable, hdefault⟩ := List.forall_mem_append.mp hoffered
    exact (asks_probe p).then fun q _ => asks_useLink id (.lazily (.table
      (fun s hs e he => htable e (List.mem_flatMap.mpr ⟨s, hs, he⟩)) hdefault))
  | route p handlers fallback =>
    obtain ⟨hhandlers, hfallback⟩ := List.forall_mem_append.mp hoffered
    rw [Registration.arguments, Registration.inPlace, Registration.offered, flattenedAll,
      List.flatMap_append, containersOf, List.filterMap_nil, List.append_nil]
    exact (asks_probe p).bind fun q _ => (asks_handlersOf (fun h hmem => asks_offeredChoice
      fun e he => hhandlers e (List.mem_flatMap.mpr ⟨h, hmem, he⟩)) (List.forall_mem_nil _)).bind
        fun found hfound => (asks_offeredChoice hfallback).then fun fallback hfallback =>
          asks_useLink id (spares_route hfound hfallback)

/-! ### Steps -/

theorem asks_store (into : Option String) (h : m.container? = none ∧ m.Spares K) :
    Asks K [] (fun _ => True) (store into m) := by
  cases into with
  | none => exact asks_pure trivial
  | some register =>
    exact asks_modify (fun _ hw => hw.setRegister register h) fun _ => (List.append_nil _).symm

theorem asks_storeComposer (into : Option String) (id : Nat) :
    Asks K [] (fun _ => True) (store into (.composer id)) := asks_store into ⟨rfl, .composer id⟩

theorem asks_newBot (into : Option String) {b : BotState} (hb : b.handler = none) :
    Asks K [] (fun _ => True) (newBot into b) := by
  have hbot : ({ bot := some b } : Composer).Spares K := by
    refine ⟨.pass, fun b' hb' s hs => ?_⟩
    cases hb'
    rw [hb] at hs
    cases hs
  exact (asks_newComposer hbot).bind fun id _ => asks_storeComposer into id

theorem asks_composerNamed (register : String) :
    Asks K [] (fun _ => True) (composerNamed register) := by
  refine (asks_expr (.named register) (.named register)).bind fun m _ => ?_
  split
  · exact asks_pure trivial
  · exact asks_throw _
  · exact asks_throw _

theorem asks_identityOf (v : Json) : Asks K [] (fun _ => True) (identityOf v) := by
  unfold identityOf
  split
  · split
    · exact asks_pure trivial
    · exact asks_throw _
  · exact asks_pure trivial

/-- What a step of registration asks. -/
theorem asks_step {s : Step} (h : s.Spares K) :
    Asks K (flattenedAll s.arguments ++ containersOf s.inPlace) (fun _ => True) (step s) := by
  obtain ⟨hplace, hoffered, hhandling⟩ := h
  cases s with
  | create into es =>
    exact (asks_buildAll hplace).bind fun _ hms => (asks_composerOf hms).then fun id _ =>
      asks_storeComposer into id
  | createBot into identity throws =>
    cases identity with
    | some v => exact (asks_identityOf v).bind fun _ _ => asks_newBot into rfl
    | none =>
      have hme : Asks K [] (fun _ => True) (do pure (some (← get).me) : Build (Option Identity)) :=
        asks_get fun _ _ => asks_pure trivial
      exact hme.bind fun identity _ =>
        asks_newBot into (b := { identity, contextThrows := throws }) rfl
  | createBotFrom into fields => exact (asks_ofExcept _).bind fun _ _ => asks_newBot into rfl
  | register on into r =>
    exact (asks_composerNamed on).bind fun id _ =>
      (asks_register id hplace hoffered hhandling).then fun child _ => asks_storeComposer into child
  | grab on into =>
    exact (asks_composerNamed on).bind fun id _ => asks_store into ⟨rfl, .link (.composer id)⟩
  | handle on actions plain =>
    refine (asks_composerNamed on).bind fun id _ => asks_get fun w _ => ?_
    split
    · refine asks_modify (fun _ hw => hw.modifyBot id fun _ s hs => .inr ?_)
        fun _ => (List.append_nil _).symm
      cases hs
      exact hhandling
    · exact asks_throw _

end Build

/-- A step that succeeds has asked the containers that its arguments flatten, and then those that
were given in place. -/
theorem accesses_step {w w' : World} (hw : w.Spares .any) {s : Step}
    (h : (Build.step s).outcome w = (.ok (), w')) : w'.accesses =
      w.accesses ++ (Build.flattenedAll s.arguments ++ Build.containersOf s.inPlace) := by
  have hasks := Build.asks_step s.spares_any w hw
  rw [h] at hasks
  cases hasks with
  | ok _ hasked _ => exact hasked

/-- Whatever is registered, as long as these containers are given in place only. -/
theorem World.Spares.step {w : World} (hw : w.Spares K) {s : Step} (hs : s.Spares K) :
    ((Build.step s).outcome w).2.Spares K := by
  have hasks := Build.asks_step hs w hw
  generalize (Build.step s).outcome w = result at hasks
  cases hasks with
  | ok hw' _ _ | error hw' _ _ => exact hw'

end UpdateDispatch
