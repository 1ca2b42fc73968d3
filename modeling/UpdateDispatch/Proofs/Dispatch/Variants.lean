import UpdateDispatch.Proofs.Dispatch.Building
import UpdateDispatch.Proofs.Dispatch.Parts
import UpdateDispatch.Proofs.Dispatch.Twins

/-!
# Variants of a state

Two programs that make the same registrations but one have the same chains, but for the numbers of
their composers: one of them may have made more composers than the other. `Link.Same` holds of links
that differ in nothing else. `Variants` says which numbers correspond, which composers only one of
two states has, and which links in the chain of a composer stand for each other.

`Variants.Stores` holds of two states whose composers and registers correspond in this way. Their
bots may also differ in the update kinds that they observe, which nothing in a chain looks at.
Registrations do the same in two such states (`Variants.builds_step`), whatever else a relation of
states (`Variants.Basis`) says of them.
-/

namespace UpdateDispatch

/-! ## Links -/

mutual

/-- The same link in two states, where `C` holds of the numbers of the same composer. -/
inductive Link.Same (C : Nat → Nat → Prop) : Link → Link → Prop
  | pass : Link.Same C .pass .pass
  | script (s : Script) : Link.Same C (.script s) (.script s)
  | composer {i i' : Nat} (h : C i i') : Link.Same C (.composer i) (.composer i')
  | concat {first first' second second' : Link} (h : Link.Same C first first')
      (h' : Link.Same C second second') :
      Link.Same C (.concat first second) (.concat first' second')
  | lazily {c c' : Choice} (h : Choice.Same C c c') : Link.Same C (.lazily c) (.lazily c')
  | fork {i i' : Nat} (h : C i i') : Link.Same C (.fork i) (.fork i')
  | boundary {i i' : Nat} (h : C i i') (handler : Script) :
      Link.Same C (.boundary i handler) (.boundary i' handler)

/-- The same middleware in two states. -/
inductive Middleware.Same (C : Nat → Nat → Prop) : Middleware → Middleware → Prop
  | link {l l' : Link} (h : Link.Same C l l') : Middleware.Same C (.link l) (.link l')
  | composer {i i' : Nat} (h : C i i') : Middleware.Same C (.composer i) (.composer i')
  | container (name : String) {l l' : Link} (h : Link.Same C l l') :
      Middleware.Same C (.container name l) (.container name l')
  | other (v : Json) : Middleware.Same C (.other v) (.other v)

/-- The same handler of a route, for the same key. -/
inductive Handler.Same (C : Nat → Nat → Prop) :
    Json × Option (List Middleware) → Json × Option (List Middleware) → Prop
  | none (key : Json) : Handler.Same C (key, none) (key, none)
  | some (key : Json) {mw mw' : List Middleware} (h : List.Forall₂ (Middleware.Same C) mw mw') :
      Handler.Same C (key, some mw) (key, some mw')

/-- The same choice in two states. -/
inductive Choice.Same (C : Nat → Nat → Prop) : Choice → Choice → Prop
  | branch (p : Probe Condition) (negated : Bool) {yes yes' no no' : List Middleware}
      (hyes : List.Forall₂ (Middleware.Same C) yes yes')
      (hno : List.Forall₂ (Middleware.Same C) no no') :
      Choice.Same C (.branch p negated yes no) (.branch p negated yes' no')
  | route (router : Probe Condition) {handlers handlers' : List (Json × Option (List Middleware))}
      {fallback fallback' : List Middleware}
      (hhandlers : List.Forall₂ (Handler.Same C) handlers handlers')
      (hfallback : List.Forall₂ (Middleware.Same C) fallback fallback') :
      Choice.Same C (.route router handlers fallback) (.route router handlers' fallback')
  | table (factory : Probe Condition) (specs : List (String × Spec)) (default : Spec) :
      Choice.Same C (.table factory specs default) (.table factory specs default)

end

variable {C : Nat → Nat → Prop}

mutual

/-- A link is the same if its composers are. -/
theorem Link.same_self : (l : Link) → (∀ id, l.Has (.composer id) → C id id) → Link.Same C l l
  | .pass, _ => .pass
  | .script s, _ => .script s
  | .composer id, h => .composer (h id (.composer id))
  | .concat first second, h =>
    .concat (first.same_self fun id hid => h id (.first hid))
      (second.same_self fun id hid => h id (.second hid))
  | .lazily c, h => .lazily (c.same_self fun id hid => h id (.lazily hid))
  | .fork side, h => .fork (h side (.fork side))
  | .boundary inner handler, h => .boundary (h inner (.inner inner handler)) handler

theorem Middleware.same_self : (m : Middleware) → (∀ id, m.Has (.composer id) → C id id) →
    Middleware.Same C m m
  | .link l, h => .link (l.same_self fun id hid => h id (.link hid))
  | .composer id, h => .composer (h id (.composer id))
  | .container name inner, h =>
    .container name (inner.same_self fun id hid => h id (.container hid))
  | .other v, _ => .other v

theorem Choice.same_self : (c : Choice) → (∀ id, c.Has (.composer id) → C id id) → Choice.Same C c c
  | .branch p negated yes no, h =>
    .branch p negated (Middleware.all_same_self yes fun _ hm id hid => h id (.yes hm hid))
      (Middleware.all_same_self no fun _ hm id hid => h id (.no hm hid))
  | .route router handlers fallback, h =>
    .route router
      (Handler.all_same_self handlers fun _ _ hmw _ hm id hid => h id (.handler hmw hm hid))
      (Middleware.all_same_self fallback fun _ hm id hid => h id (.fallback hm hid))
  | .table factory specs default, _ => .table factory specs default

theorem Middleware.all_same_self : (mw : List Middleware) →
    (∀ m ∈ mw, ∀ id, m.Has (.composer id) → C id id) → List.Forall₂ (Middleware.Same C) mw mw
  | [], _ => .nil
  | m :: rest, h => .cons (m.same_self (h m List.mem_cons_self))
      (Middleware.all_same_self rest fun m hm => h m (List.mem_cons_of_mem _ hm))

theorem Handler.all_same_self : (handlers : List (Json × Option (List Middleware))) →
    (∀ key mw, (key, some mw) ∈ handlers → ∀ m ∈ mw, ∀ id, m.Has (.composer id) → C id id) →
      List.Forall₂ (Handler.Same C) handlers handlers
  | [], _ => .nil
  | (key, none) :: rest, h => .cons (.none key)
      (Handler.all_same_self rest fun key mw hmw => h key mw (List.mem_cons_of_mem _ hmw))
  | (key, some mw) :: rest, h =>
    .cons (.some key (Middleware.all_same_self mw (h key mw List.mem_cons_self)))
      (Handler.all_same_self rest fun key mw hmw => h key mw (List.mem_cons_of_mem _ hmw))

end

/-! ## States -/

/-- Bots that differ in nothing but the update kinds that they observe. -/
structure BotState.Alike (b b' : BotState) : Prop where
  identity : b'.identity = b.identity
  fetch : b'.fetch = b.fetch
  contextThrows : b'.contextThrows = b.contextThrows
  allowed : b'.allowed = b.allowed
  handler : b'.handler = b.handler

theorem BotState.Alike.refl (b : BotState) : b.Alike b := ⟨rfl, rfl, rfl, rfl, rfl⟩

/-- Two variants of a state: the composers that both have from the start, those that only one of
them has, which come next, the links that stand for each other, and what the first variant runs
beside them. `kept` is what holds of the first variant as long as it is of interest. -/
structure Variants where
  shared : Nat
  left : List Composer := []
  right : List Composer := []
  alike : Link → Link → Prop := fun _ _ => False
  beside : Process → Prop := fun _ => False
  kept : World → Prop := fun _ => True

namespace Variants

variable (V : Variants)

/-- Numbers of the same composer. -/
def Composers (i i' : Nat) : Prop :=
  i < V.shared ∧ i' = i ∨ Paired (V.shared + V.left.length) (V.shared + V.right.length) i i'

/-- Chains of the same composer: links that stand for each other, and the same links after them. -/
inductive Chains : Link → Link → Prop
  | same {l l' : Link} (h : Link.Same V.Composers l l') : Chains l l'
  | alike {l l' : Link} (h : V.alike l l') : Chains l l'
  | concat {first first' second second' : Link} (h : Chains first first')
      (h' : Link.Same V.Composers second second') :
      Chains (.concat first second) (.concat first' second')

/-- Links that are entered for each other: chains of the same composer, or a composer that only one
of the states has and a chain like its own. -/
inductive Entered : Link → Link → Prop
  | chains {l l' : Link} (h : V.Chains l l') : Entered l l'
  | left {j : Nat} {c : Composer} {l' : Link} (hc : V.left[j]? = some c) (h : V.Chains c.chain l') :
      Entered (.composer (V.shared + j)) l'
  | right {j : Nat} {c : Composer} {l : Link} (hc : V.right[j]? = some c)
      (h : V.Chains l c.chain) : Entered l (.composer (V.shared + j))

/-- The same composer. -/
structure Same (c c' : Composer) : Prop where
  chain : V.Chains c.chain c'.chain
  bot : Option.Rel BotState.Alike c.bot c'.bot

/-- The same middleware in two variants. -/
abbrev Items : List Middleware → List Middleware → Prop :=
  List.Forall₂ (Middleware.Same V.Composers)

/-- States with the same composers and registers, and the same identity for new bots. -/
structure Stores (w w' : World) : Prop where
  composers : ∀ {i i'}, V.Composers i i' → Option.Rel V.Same w.composers[i]? w'.composers[i']?
  lengths : Paired (V.shared + V.left.length) (V.shared + V.right.length) w.composers.length
    w'.composers.length
  left : ∀ {j c}, V.left[j]? = some c → w.composers[V.shared + j]? = some c
  right : ∀ {j c}, V.right[j]? = some c → w'.composers[V.shared + j]? = some c
  registers : List.Forall₂ (fun r r' => r'.1 = r.1 ∧ Middleware.Same V.Composers r.2 r'.2)
    w.registers w'.registers
  me : w'.me = w.me

variable {V} {w w' : World} {i i' j j' : Nat}

/-! ## Composers -/

theorem Composers.eq_iff (h : V.Composers i i') (h' : V.Composers j j') : i = j ↔ i' = j' := by
  rcases h with ⟨hlt, rfl⟩ | ⟨k, rfl, rfl⟩ <;> rcases h' with ⟨hlt', rfl⟩ | ⟨k', rfl, rfl⟩ <;> omega

/-- The composers that only one of the states has have no counterparts. -/
theorem Composers.ne_left (h : V.Composers i i') (hj : j < V.left.length) : i ≠ V.shared + j := by
  rcases h with ⟨hlt, -⟩ | ⟨k, rfl, -⟩ <;> omega

theorem Composers.ne_right (h : V.Composers i i') (hj : j < V.right.length) :
    i' ≠ V.shared + j := by
  rcases h with ⟨hlt, rfl⟩ | ⟨k, -, rfl⟩ <;> omega

theorem Stores.chain (h : V.Stores w w') (hi : V.Composers i i') :
    V.Chains (w.chain i) (w'.chain i') := by
  have hcomposers := h.composers hi
  unfold World.chain
  generalize w.composers[i]? = c at hcomposers
  generalize w'.composers[i']? = c' at hcomposers
  cases hcomposers with
  | none => exact .same .pass
  | some hc => exact hc.chain

theorem Stores.chain_left (h : V.Stores w w') {c : Composer} (hc : V.left[j]? = some c) :
    w.chain (V.shared + j) = c.chain := by rw [World.chain, h.left hc]

theorem Stores.chain_right (h : V.Stores w w') {c : Composer} (hc : V.right[j]? = some c) :
    w'.chain (V.shared + j) = c.chain := by rw [World.chain, h.right hc]

theorem Stores.bot? (h : V.Stores w w') (hi : V.Composers i i') :
    Option.Rel BotState.Alike (w.bot? i) (w'.bot? i') := by
  have hcomposers := h.composers hi
  unfold World.bot?
  generalize w.composers[i]? = c at hcomposers
  generalize w'.composers[i']? = c' at hcomposers
  cases hcomposers with
  | none => exact .none
  | some hc => exact hc.bot

theorem Stores.addComposer (h : V.Stores w w') {c c' : Composer} (hc : V.Same c c') :
    V.Stores (w.addComposer c) (w'.addComposer c') := by
  obtain ⟨k, hlength, hlength'⟩ := h.lengths
  have hold : ∀ {cs : List Composer} {i c₀ c₁}, cs[i]? = some c₀ → (cs ++ [c₁])[i]? = some c₀ :=
    fun hi => (List.getElem?_append_left (List.getElem?_eq_some_iff.mp hi).1).trans hi
  refine { h with
    composers := fun {i i'} hi => ?_
    lengths := ⟨k + 1, ?_, ?_⟩
    left := fun hj => hold (h.left hj)
    right := fun hj => hold (h.right hj) }
  · have hnew : i = w.composers.length ↔ i' = w'.composers.length :=
      hi.eq_iff (.inr ⟨k, hlength, hlength'⟩)
    have hlt : i < w.composers.length ↔ i' < w'.composers.length := by
      rcases hi with ⟨hlt, rfl⟩ | ⟨d, rfl, rfl⟩ <;> omega
    simp only [World.addComposer, List.getElem?_append, List.getElem?_singleton]
    by_cases hi' : i < w.composers.length
    · rw [if_pos hi', if_pos (hlt.mp hi')]
      exact h.composers hi
    · rw [if_neg hi', if_neg (mt hlt.mpr hi')]
      by_cases heq : i = w.composers.length
      · rw [if_pos (by omega), if_pos (by have := hnew.mp heq; omega)]
        exact .some hc
      · have hne := mt hnew.mpr heq
        rw [if_neg (by omega), if_neg (by omega)]
        exact .none
  · simp only [World.addComposer, List.length_append, List.length_singleton]
    omega
  · simp only [World.addComposer, List.length_append, List.length_singleton]
    omega

theorem Stores.modifyComposer (h : V.Stores w w') (hi : V.Composers i i')
    {f f' : Composer → Composer} (hf : ∀ c c', V.Same c c' → V.Same (f c) (f' c')) :
    V.Stores (w.modifyComposer i f) (w'.modifyComposer i' f') := by
  refine { h with
    composers := fun {j j'} hj => ?_
    lengths := ?_
    left := fun {j c} hj => ?_
    right := fun {j c} hj => ?_ }
  · have hcomposers := h.composers hj
    simp only [World.modifyComposer, List.getElem?_modify]
    by_cases heq : i = j
    · obtain rfl := heq
      obtain rfl := (hi.eq_iff hj).mp rfl
      simp only [if_true]
      generalize w.composers[i]? = c at hcomposers
      generalize w'.composers[i']? = c' at hcomposers
      cases hcomposers with
      | none => exact .none
      | some hc => exact .some (hf _ _ hc)
    · simpa only [if_neg heq, if_neg (mt (hi.eq_iff hj).mpr heq), id_eq, Option.map_eq_map,
        Option.map_id'] using hcomposers
  · simpa only [World.modifyComposer, List.length_modify] using h.lengths
  · have hne : i ≠ V.shared + j := hi.ne_left (List.getElem?_eq_some_iff.mp hj).1
    simpa [World.modifyComposer, List.getElem?_modify, hne] using h.left hj
  · have hne : i' ≠ V.shared + j := hi.ne_right (List.getElem?_eq_some_iff.mp hj).1
    simpa [World.modifyComposer, List.getElem?_modify, hne] using h.right hj

theorem Same.append {c c' : Composer} (h : V.Same c c') {l l' : Link}
    (hl : Link.Same V.Composers l l') :
    V.Same { c with chain := .concat c.chain l } { c' with chain := .concat c'.chain l' } :=
  ⟨.concat h.chain hl, h.bot⟩

theorem Same.modifyBot {c c' : Composer} (h : V.Same c c') {f : BotState → BotState}
    (hf : ∀ b b' : BotState, b.Alike b' → (f b).Alike (f b')) :
    V.Same { c with bot := c.bot.map f } { c' with bot := c'.bot.map f } := by
  refine ⟨h.chain, ?_⟩
  have hbot := h.bot
  dsimp only
  generalize c.bot = b at hbot
  generalize c'.bot = b' at hbot
  cases hbot with
  | none => exact .none
  | some hb => exact .some (hf _ _ hb)

/-! ## Registers -/

theorem Stores.find? (h : V.Stores w w') (register : String) :
    Option.Rel (Middleware.Same V.Composers) (Named.find? register w.registers)
      (Named.find? register w'.registers) := by
  have hregisters := h.registers
  generalize w.registers = rs at hregisters
  generalize w'.registers = rs' at hregisters
  induction hregisters with
  | nil => exact .none
  | @cons r r' _ _ hr _ ih =>
    obtain ⟨key, m⟩ := r
    obtain ⟨key', m'⟩ := r'
    obtain ⟨rfl, hm⟩ := hr
    unfold Named.find?
    by_cases heq : key' = register
    · simp only [if_pos heq]
      exact .some hm
    · simpa only [if_neg heq] using ih

theorem Stores.setRegister (h : V.Stores w w') (register : String) {m m' : Middleware}
    (hm : Middleware.Same V.Composers m m') :
    V.Stores { w with registers := Named.set register m w.registers }
      { w' with registers := Named.set register m' w'.registers } := by
  refine { h with registers := ?_ }
  have hregisters := h.registers
  dsimp only
  generalize w.registers = rs at hregisters
  generalize w'.registers = rs' at hregisters
  induction hregisters with
  | nil => exact .cons ⟨rfl, hm⟩ .nil
  | @cons r r' _ _ hr hrest ih =>
    obtain ⟨key, old⟩ := r
    obtain ⟨key', old'⟩ := r'
    obtain ⟨rfl, hold⟩ := hr
    unfold Named.set
    by_cases heq : key' = register
    · simp only [if_pos heq]
      exact .cons ⟨rfl, hm⟩ hrest
    · simp only [if_neg heq]
      exact .cons ⟨rfl, hold⟩ ih

/-! ## Registration -/

variable (V) in
/-- A relation of states on which registrations in two variants can rely, and that they keep. -/
structure Basis (R : World → World → Prop) : Prop where
  stores : ∀ {w w'}, R w w' → V.Stores w w'
  accessed : ∀ {w w'}, R w w' → ∀ name,
    R (w.record (.accessed name)) (w'.record (.accessed name))
  setComposers : ∀ {w w'}, R w w' → ∀ {composers composers'},
    V.Stores { w with composers := composers } { w' with composers := composers' } →
      R { w with composers := composers } { w' with composers := composers' }
  setRegisters : ∀ {w w'}, R w w' → ∀ {registers registers'},
    V.Stores { w with registers := registers } { w' with registers := registers' } →
      R { w with registers := registers } { w' with registers := registers' }

/-- Both computations fail in the same way, or `S` holds of what they give. -/
inductive Ends {α α' : Type} (S : α → α' → Prop) : Except Fault α → Except Fault α' → Prop
  | ok {a : α} {a' : α'} (h : S a a') : Ends S (.ok a) (.ok a')
  | error (f : Fault) : Ends S (.error f) (.error f)

/-- Computations that do the same in two variants, and give what `S` holds of. -/
def Builds {α α' : Type} (R : World → World → Prop) (S : α → α' → Prop) (b : Build α)
    (b' : Build α') : Prop :=
  ∀ w w', R w w' → Ends S (b.outcome w).1 (b'.outcome w').1 ∧ R (b.outcome w).2 (b'.outcome w').2

variable {R : World → World → Prop}

section Builds

variable {α α' β β' : Type} {S : α → α' → Prop} {T : β → β' → Prop}

theorem builds_pure {a : α} {a' : α'} (h : S a a') : Builds R S (pure a) (pure a') :=
  fun _ _ hw => ⟨.ok h, hw⟩

theorem builds_throw (f : Fault) : Builds R S (throw f) (throw f) := fun _ _ hw => ⟨.error f, hw⟩

theorem builds_modify {f f' : World → World}
    (h : ∀ w w', R w w' → R (f w) (f' w')) :
    Builds R (fun _ _ => True) (modify f : Build Unit) (modify f' : Build Unit) :=
  fun w w' hw => ⟨.ok trivial, h w w' hw⟩

theorem Builds.bind {b : Build α} {b' : Build α'} {k : α → Build β} {k' : α' → Build β'}
    (h : Builds R S b b') (hk : ∀ a a', S a a' → Builds R T (k a) (k' a')) :
    Builds R T (b >>= k) (b' >>= k') := by
  intro w w' hw
  rw [Build.outcome_bind, Build.outcome_bind]
  obtain ⟨hends, hrest⟩ := h w w' hw
  rcases hb : b.outcome w with ⟨e, s⟩
  rcases hb' : b'.outcome w' with ⟨e', s'⟩
  rw [hb, hb'] at hends hrest
  cases hends with
  | ok ha => exact hk _ _ ha s s' hrest
  | error f => exact ⟨.error f, hrest⟩

/-- Computations that do the same fail alike or succeed alike. -/
theorem Builds.cases {b : Build α} {b' : Build α'} (h : Builds R S b b') (hw : R w w') :
    (∃ f v v', b.outcome w = (.error f, v) ∧ b'.outcome w' = (.error f, v') ∧ R v v') ∨
      ∃ a a' v v', b.outcome w = (.ok a, v) ∧ b'.outcome w' = (.ok a', v') ∧ S a a' ∧ R v v' := by
  obtain ⟨hends, hrest⟩ := h w w' hw
  rcases hb : b.outcome w with ⟨e, v⟩
  rcases hb' : b'.outcome w' with ⟨e', v'⟩
  rw [hb, hb'] at hends hrest
  cases hends with
  | ok ha => exact .inr ⟨_, _, v, v', rfl, rfl, ha, hrest⟩
  | error f => exact .inl ⟨f, v, v', rfl, rfl, hrest⟩

/-- Computations that look at the state, and go on alike in two variants. -/
theorem builds_get {k : World → Build β} {k' : World → Build β'}
    (h : ∀ w w', R w w' → Builds R T (k w) (k' w')) :
    Builds R T (get >>= k) (get >>= k') := by
  intro w w' hw
  rw [Build.outcome_bind, Build.outcome_bind]
  exact h w w' hw w w' hw

theorem builds_ofExcept (e : Except Fault α) :
    Builds R Eq (Build.ofExcept e) (Build.ofExcept e) := by
  cases e with
  | ok a => exact builds_pure rfl
  | error f => exact builds_throw f

theorem builds_mapM {γ : Type} {f : γ → Build α} {f' : γ → Build α'}
    (h : ∀ c, Builds R S (f c) (f' c)) (cs : List γ) :
    Builds R (List.Forall₂ S) (cs.mapM f) (cs.mapM f') := by
  induction cs with
  | nil => exact builds_pure .nil
  | cons c cs ih =>
    rw [List.mapM_cons, List.mapM_cons]
    exact (h c).bind fun a a' ha => ih.bind fun as as' has => builds_pure (.cons ha has)

end Builds

open Build

section Basis

variable (hR : V.Basis R)

include hR

theorem Basis.addComposer (hw : R w w') {c c' : Composer} (hc : V.Same c c') :
    R (w.addComposer c) (w'.addComposer c') :=
  hR.setComposers hw ((hR.stores hw).addComposer hc)

theorem Basis.append (hw : R w w') (hi : V.Composers i i') {l l' : Link}
    (hl : Link.Same V.Composers l l') : R (w.append i l) (w'.append i' l') :=
  hR.setComposers hw ((hR.stores hw).modifyComposer hi fun _ _ hc => hc.append hl)

theorem Basis.modifyBot (hw : R w w') (hi : V.Composers i i') {f : BotState → BotState}
    (hf : ∀ b b' : BotState, b.Alike b' → (f b).Alike (f b')) :
    R (w.modifyBot i f) (w'.modifyBot i' f) :=
  hR.setComposers hw ((hR.stores hw).modifyComposer hi fun _ _ hc => hc.modifyBot hf)

theorem Basis.setRegister (hw : R w w') (register : String) {m m' : Middleware}
    (hm : Middleware.Same V.Composers m m') :
    R { w with registers := Named.set register m w.registers }
      { w' with registers := Named.set register m' w'.registers } :=
  hR.setRegisters hw ((hR.stores hw).setRegister register hm)

theorem builds_flatten {m m' : Middleware} (h : Middleware.Same V.Composers m m') :
    Builds R (Link.Same V.Composers) m.flatten m'.flatten := by
  cases h with
  | link hl => exact builds_pure hl
  | composer hi => exact builds_pure (.composer hi)
  | container name hl =>
    exact (builds_modify fun _ _ hw => hR.accessed hw name).bind fun _ _ _ =>
      builds_pure hl
  | other v => exact builds_throw _

theorem builds_composeAfter {first first' : Link} {mw mw' : List Middleware}
    (hfirst : Link.Same V.Composers first first') (h : V.Items mw mw') :
    Builds R (Link.Same V.Composers) (composeAfter first mw) (composeAfter first' mw') := by
  induction h generalizing first first' with
  | nil => exact builds_pure hfirst
  | cons hm _ ih => exact (builds_flatten hR hm).bind fun _ _ hl => ih (.concat hfirst hl)

theorem builds_compose {mw mw' : List Middleware} (h : V.Items mw mw') :
    Builds R (Link.Same V.Composers) (compose mw) (compose mw') := by
  cases h with
  | nil => exact builds_pure .pass
  | cons hm hrest => exact (builds_flatten hR hm).bind fun _ _ hl => builds_composeAfter hR hl hrest

theorem builds_named (register : String) :
    Builds R (Middleware.Same V.Composers) (Build.named register) (Build.named register) := by
  refine builds_get fun w w' hw => ?_
  have hfind := (hR.stores hw).find? register
  generalize Named.find? register w.registers = m at hfind
  generalize Named.find? register w'.registers = m' at hfind
  cases hfind with
  | none => exact builds_throw _
  | some hm => exact builds_pure hm

theorem builds_composerNamed (register : String) :
    Builds R V.Composers (composerNamed register) (composerNamed register) := by
  refine (builds_named hR register).bind fun m m' hm => ?_
  cases hm with
  | composer hi => exact builds_pure hi
  | link hl | container name hl | other v => exact builds_throw _

theorem builds_expr : (e : Expr) → Builds R (Middleware.Same V.Composers) e.build e.build
  | .pass => builds_pure (.link .pass)
  | .named register => builds_named hR register
  | .value v => builds_pure (.other v)
  | .flat e =>
    (builds_expr e).bind fun _ _ hm => (builds_flatten hR hm).bind fun _ _ hl =>
      builds_pure (.link hl)
  | .joined first second =>
    (builds_expr first).bind fun _ _ hm => (builds_flatten hR hm).bind fun _ _ hl =>
      (builds_expr second).bind fun _ _ hm' => (builds_flatten hR hm').bind fun _ _ hl' =>
        builds_pure (.link (.concat hl hl'))
  | .container name inner =>
    (builds_expr inner).bind fun _ _ hm => (builds_flatten hR hm).bind fun _ _ hl =>
      builds_pure (.container name hl)
  | .script actions plain => builds_pure (.link (.script { actions, plain }))

theorem builds_buildAll (es : List Expr) : Builds R V.Items (buildAll es) (buildAll es) :=
  builds_mapM (builds_expr hR) es

omit hR in
theorem Items.listed {m m' : Middleware} (h : Middleware.Same V.Composers m m') :
    V.Items m.listed m'.listed := by
  cases h with
  | other v =>
    unfold Middleware.listed
    split
    · next items =>
      refine Middleware.all_same_self _ fun m hm id hid => ?_
      obtain ⟨v, -, rfl⟩ := List.mem_map.mp hm
      cases hid
    · exact .cons (.other v) .nil
  | link hl => exact .cons (.link hl) .nil
  | composer hi => exact .cons (.composer hi) .nil
  | container name hl => exact .cons (.container name hl) .nil

theorem builds_spec (s : Spec) : Builds R V.Items s.build s.build := by
  cases s with
  | one e => exact (builds_expr hR e).bind fun _ _ hm => builds_pure (.listed hm)
  | many es => exact builds_buildAll hR es

theorem builds_buildChoice (s : Spec) :
    Builds R (Option.Rel V.Items) s.buildChoice s.buildChoice := by
  cases s with
  | one e =>
    refine (builds_expr hR e).bind fun m m' hm => ?_
    cases hm with
    | other v =>
      split
      · exact builds_pure .none
      · exact builds_pure (.some (.listed (.other v)))
    | link hl => exact builds_pure (.some (.listed (.link hl)))
    | composer hi => exact builds_pure (.some (.listed (.composer hi)))
    | container name hl => exact builds_pure (.some (.listed (.container name hl)))
  | many es => exact (builds_buildAll hR es).bind fun _ _ hmw => builds_pure (.some hmw)

omit hR in
theorem rel_setHandler (key : Json) {mw mw' : Option (List Middleware)}
    (h : Option.Rel V.Items mw mw') {acc acc' : List (Json × Option (List Middleware))}
    (hacc : List.Forall₂ (Handler.Same V.Composers) acc acc') :
    List.Forall₂ (Handler.Same V.Composers) (setHandler key mw acc) (setHandler key mw' acc') := by
  have hset : ∀ k, Handler.Same V.Composers (k, mw) (k, mw') := fun k => by
    cases h with
    | none => exact .none k
    | some h => exact .some k h
  induction hacc with
  | nil => exact .cons (hset key) .nil
  | cons he hrest ih =>
    cases he with
    | none k =>
      unfold setHandler
      split
      · exact .cons (hset k) hrest
      · exact .cons (.none k) ih
    | some k hold =>
      unfold setHandler
      split
      · exact .cons (hset k) hrest
      · exact .cons (.some k hold) ih

theorem builds_handlersOf (handlers : List (Json × Spec))
    {acc acc' : List (Json × Option (List Middleware))}
    (hacc : List.Forall₂ (Handler.Same V.Composers) acc acc') :
    Builds R (List.Forall₂ (Handler.Same V.Composers)) (handlersOf handlers acc)
      (handlersOf handlers acc') := by
  induction handlers generalizing acc acc' with
  | nil => exact builds_pure hacc
  | cons h rest ih =>
    refine (builds_buildChoice hR h.2).bind fun _ _ hmw =>
      (builds_ofExcept _).bind fun key _ hkey => ?_
    obtain rfl := hkey
    exact ih (rel_setHandler key hmw hacc)

omit hR in
theorem builds_probe (p : Probe Listener) : Builds R Eq p.build p.build := by
  unfold Probe.build
  split
  · refine (builds_ofExcept _).bind fun c _ hc => ?_
    obtain rfl := hc
    exact builds_pure rfl
  · exact builds_pure rfl
  · exact builds_pure rfl

theorem builds_newComposer {c c' : Composer} (h : V.Same c c') :
    Builds R V.Composers (newComposer c) (newComposer c') :=
  builds_get fun _ _ hw => (builds_modify fun _ _ hw => hR.addComposer hw h).bind fun _ _ _ =>
    builds_pure (.inr (hR.stores hw).lengths)

theorem builds_composerOf {mw mw' : List Middleware} (h : V.Items mw mw') :
    Builds R V.Composers (composerOf mw) (composerOf mw') :=
  (builds_compose hR h).bind fun _ _ hl => builds_newComposer hR ⟨.same hl, .none⟩

theorem builds_use (hi : V.Composers i i') {mw mw' : List Middleware} (h : V.Items mw mw') :
    Builds R V.Composers (use i mw) (use i' mw') :=
  (builds_composerOf hR h).bind fun _ _ hchild =>
    (builds_modify fun _ _ hw => hR.append hw hi (.composer hchild)).bind fun _ _ _ =>
      builds_pure hchild

theorem builds_useLink (hi : V.Composers i i') {l l' : Link} (h : Link.Same V.Composers l l') :
    Builds R V.Composers (useLink i l) (useLink i' l') := builds_use hR hi (.cons (.link h) .nil)

theorem builds_filter (hi : V.Composers i i') (p : Probe Condition) (negated : Bool)
    {mw mw' : List Middleware} (h : V.Items mw mw') :
    Builds R V.Composers (filter i p negated mw) (filter i' p negated mw') :=
  (builds_composerOf hR h).bind fun _ _ hchild =>
    (builds_useLink hR hi (.lazily (.branch p negated (.cons (.composer hchild) .nil)
      (.cons (.link .pass) .nil)))).bind fun _ _ _ => builds_pure hchild

theorem builds_fork (hi : V.Composers i i') {mw mw' : List Middleware} (h : V.Items mw mw') :
    Builds R V.Composers (fork i mw) (fork i' mw') :=
  (builds_composerOf hR h).bind fun _ _ hside =>
    (builds_useLink hR hi (.fork hside)).bind fun _ _ _ => builds_pure hside

theorem builds_boundary (hi : V.Composers i i') (handler : Script) {mw mw' : List Middleware}
    (h : V.Items mw mw') :
    Builds R V.Composers (boundary i handler mw) (boundary i' handler mw') :=
  (builds_composerOf hR h).bind fun _ _ hinner =>
    (builds_useLink hR hi (.boundary hinner handler)).bind fun _ _ _ => builds_pure hinner

theorem builds_listen (hi : V.Composers i i') (l : Listener) {mw mw' : List Middleware}
    (h : V.Items mw mw') : Builds R V.Composers (listen i l mw) (listen i' l mw') := by
  have hlisten : ∀ u u' : Unit, Builds R V.Composers
      (do let condition ← Build.ofExcept l.condition
          filter i { source := .condition condition } false mw)
      (do let condition ← Build.ofExcept l.condition
          filter i' { source := .condition condition } false mw') := by
    refine fun _ _ => (builds_ofExcept _).bind fun c _ hc => ?_
    obtain rfl := hc
    exact builds_filter hR hi _ false h
  refine builds_get fun w w' hw => ?_
  have hbot := (hR.stores hw).bot? hi
  generalize w.bot? i = b at hbot
  generalize w'.bot? i' = b' at hbot
  cases hbot with
  | none =>
    have hnothing : Builds R Eq (pure () : Build Unit) (pure ()) := builds_pure rfl
    exact hnothing.bind fun u u' _ => hlisten u u'
  | some _ =>
    refine (builds_ofExcept _).bind fun kinds _ hkinds => ?_
    obtain rfl := hkinds
    have hobserving : ∀ b b' : BotState, b.Alike b' →
        (observing kinds b).Alike (observing kinds b') :=
      fun _ _ hb => ⟨hb.identity, hb.fetch, hb.contextThrows, hb.allowed, hb.handler⟩
    exact (builds_modify fun _ _ hw => hR.modifyBot hw hi hobserving).bind fun u u' _ =>
      hlisten u u'

theorem builds_register (hi : V.Composers i i') (r : Registration) :
    Builds R V.Composers (register i r) (register i' r) := by
  cases r with
  | use mw => exact (builds_buildAll hR mw).bind fun _ _ h => builds_use hR hi h
  | fork mw => exact (builds_buildAll hR mw).bind fun _ _ h => builds_fork hR hi h
  | filter p mw | drop p mw =>
    refine (builds_buildAll hR mw).bind fun _ _ h => (builds_probe p).bind fun p _ hp => ?_
    obtain rfl := hp
    exact builds_filter hR hi p _ h
  | branch p yes no =>
    refine (builds_probe p).bind fun p _ hp => (builds_spec hR yes).bind fun _ _ hyes =>
      (builds_spec hR no).bind fun _ _ hno => ?_
    obtain rfl := hp
    exact builds_useLink hR hi (.lazily (.branch p false hyes hno))
  | lazily factory table default =>
    refine (builds_probe factory).bind fun p _ hp => ?_
    obtain rfl := hp
    exact builds_useLink hR hi (.lazily (.table p table default))
  | route router handlers fallback =>
    refine (builds_probe router).bind fun p _ hp => (builds_handlersOf hR handlers .nil).bind
      fun _ _ hhandlers => (builds_buildChoice hR fallback).bind fun mw mw' hmw => ?_
    obtain rfl := hp
    refine builds_useLink hR hi (.lazily (.route p hhandlers ?_))
    cases hmw with
    | none => exact .nil
    | some hmw => exact hmw
  | boundary actions plain mw =>
    exact (builds_buildAll hR mw).bind fun _ _ h => builds_boundary hR hi { actions, plain } h
  | listen l mw => exact (builds_buildAll hR mw).bind fun _ _ h => builds_listen hR hi l h

theorem builds_store (into : Option String) {m m' : Middleware}
    (h : Middleware.Same V.Composers m m') :
    Builds R (fun _ _ => True) (store into m) (store into m') := by
  cases into with
  | none => exact builds_pure trivial
  | some register => exact builds_modify fun _ _ hw => hR.setRegister hw register h

theorem builds_newBot (into : Option String) (b : BotState) :
    Builds R (fun _ _ => True) (newBot into b) (newBot into b) :=
  (builds_newComposer hR ⟨.same .pass, .some (.refl b)⟩).bind fun _ _ hid =>
    builds_store hR into (.composer hid)

omit hR in
theorem builds_identityOf (v : Json) : Builds R Eq (identityOf v) (identityOf v) := by
  unfold identityOf
  split
  · split
    · exact builds_pure rfl
    · exact builds_throw _
  · exact builds_pure rfl

/-- A step of registration does the same in two variants. -/
theorem builds_step (s : Step) : Builds R (fun _ _ => True) (step s) (step s) := by
  cases s with
  | create into mw =>
    exact (builds_buildAll hR mw).bind fun _ _ h => (builds_composerOf hR h).bind fun _ _ hid =>
      builds_store hR into (.composer hid)
  | createBot into identity throws =>
    have hbot : ∀ i i' : Option Identity, i = i' → Builds R (fun _ _ => True)
        (newBot into { identity := i, contextThrows := throws })
        (newBot into { identity := i', contextThrows := throws }) := by
      rintro i _ rfl
      exact builds_newBot hR into _
    cases identity with
    | some v => exact (builds_identityOf v).bind hbot
    | none =>
      have hme : Builds R Eq (do pure (some (← get).me) : Build (Option Identity))
          (do pure (some (← get).me)) :=
        builds_get fun w w' hw => builds_pure (congrArg some (hR.stores hw).me.symm)
      exact hme.bind hbot
  | createBotFrom into fields =>
    refine (builds_ofExcept _).bind fun settings _ h => ?_
    obtain rfl := h
    exact builds_newBot hR into _
  | register on into r =>
    exact (builds_composerNamed hR on).bind fun _ _ hi =>
      (builds_register hR hi r).bind fun _ _ hid =>
      builds_store hR into (.composer hid)
  | grab on into =>
    exact (builds_composerNamed hR on).bind fun _ _ hi =>
      builds_store hR into (.link (.composer hi))
  | handle on actions plain =>
    refine (builds_composerNamed hR on).bind fun i i' hi => builds_get fun w w' hw => ?_
    have hbot := (hR.stores hw).bot? hi
    generalize w.bot? i = b at hbot
    generalize w'.bot? i' = b' at hbot
    cases hbot with
    | none => exact builds_throw _
    | some _ =>
      exact builds_modify fun _ _ hw => hR.modifyBot hw hi fun _ _ hb =>
        ⟨hb.identity, hb.fetch, hb.contextThrows, hb.allowed, rfl⟩

end Basis

end Variants

end UpdateDispatch
