import UpdateDispatch.Proofs.Dispatch.Observation
import UpdateDispatch.Proofs.Dispatch.Parts

/-!
# States without unknown composers

The numbers that stand in the chains and in the registers of a state are those of its composers
(`World.Closed`). So it is in the empty state, and so it stays, whatever is registered
(`World.Closed.step`): what is built of middleware has no other numbers than those that stood in the
state before, and a new composer gets a number that stands nowhere yet.
-/

namespace UpdateDispatch

/-- The part is no composer that the state does not have. -/
def World.Knows (w : World) (part : Part) : Prop :=
  ∀ id, part = .composer id → id < w.composers.length

/-- All composers that stand in the state are known. -/
structure World.Closed (w : World) : Prop where
  chains : ∀ c ∈ w.composers, c.chain.Within w.Knows
  registers : ∀ r ∈ w.registers, r.2.Within w.Knows

variable {w w' : World} {e : Expr} {part : Part}

theorem Expr.Has.ne_composer (h : e.Has part) (id : Nat) : part ≠ .composer id := by
  induction h with
  | named register => exact nofun
  | script actions plain => exact nofun
  | flat _ ih | first _ ih | second _ ih | container _ ih => exact ih

theorem Expr.within_knows (w : World) (e : Expr) : e.Within w.Knows := fun _ h id heq =>
  absurd heq (h.ne_composer id)

theorem World.Knows.mono (h : w.Knows part) (hle : w.composers.length ≤ w'.composers.length) :
    w'.Knows part := fun id hid => (h id hid).trans_le hle

namespace World.Closed

/-- What expressions denote in a state stands in it. -/
theorem denotes (h : w.Closed) : Build.Denotes w.registers (Expr.Within w.Knows)
    (Middleware.Within w.Knows) (Link.Within w.Knows) :=
  Build.denotes_within fun _ hfind => h.registers _ (Named.mem_of_find?_eq_some hfind)

/-- The chain of middleware that was built in a state stands in it. -/
theorem within_of_compose (h : w.Closed) {es : List Expr} {ms : List Middleware} {l : Link}
    (hes : (buildAll es).outcome w = (.ok ms, w)) (hl : compose ms = pure l) :
    l.Within w.Knows := by
  have hms : ∀ m ∈ ms, m.Within w.Knows := (Build.gives_mapM (fun e _ =>
    h.denotes.gives_expr (e.within_knows w)) w rfl).1 ms (congrArg Prod.fst hes)
  refine (h.denotes.toComposes.gives_compose hms w rfl).1 l ?_
  rw [hl]
  rfl

end World.Closed

/-! ## Changes of a state -/

namespace World.Closed

theorem addComposer (h : w.Closed) {c : Composer} (hc : c.chain.Within w.Knows) :
    (w.addComposer c).Closed := by
  have hle : w.composers.length ≤ (w.addComposer c).composers.length := by simp [World.addComposer]
  refine ⟨fun c' hc' part hpart => ?_, fun r hr part hpart => (h.registers r hr hpart).mono hle⟩
  rcases List.mem_append.mp hc' with hc' | hc'
  · exact (h.chains c' hc' hpart).mono hle
  · obtain rfl := List.mem_singleton.mp hc'
    exact (hc hpart).mono hle

theorem modifyComposer (h : w.Closed) (id : Nat) {f : Composer → Composer}
    (hf : ∀ c, c.chain.Within w.Knows → (f c).chain.Within w.Knows) :
    (w.modifyComposer id f).Closed := by
  have hle : w.composers.length ≤ (w.modifyComposer id f).composers.length := by
    simp [World.modifyComposer]
  refine ⟨fun c hc part hpart => ?_, fun r hr part hpart => (h.registers r hr hpart).mono hle⟩
  obtain ⟨i, hi⟩ := List.mem_iff_getElem?.mp hc
  rw [World.modifyComposer, List.getElem?_modify] at hi
  obtain ⟨c', hc', heq⟩ := Option.map_eq_some_iff.mp hi
  have hwithin := h.chains c' (List.mem_of_getElem? hc')
  refine Knows.mono (w := w) ?_ hle
  subst heq
  split at hpart
  · exact hf c' hwithin hpart
  · exact hwithin hpart

theorem append (h : w.Closed) (id : Nat) {l : Link} (hl : l.Within w.Knows) :
    (w.append id l).Closed := h.modifyComposer id fun _ hc _ hpart => by
  cases hpart with
  | first hpart => exact hc hpart
  | second hpart => exact hl hpart

theorem modifyBot (h : w.Closed) (id : Nat) (f : BotState → BotState) : (w.modifyBot id f).Closed :=
  h.modifyComposer id fun _ hc => hc

theorem setRegister (h : w.Closed) (register : String) {m : Middleware} (hm : m.Within w.Knows) :
    { w with registers := Named.set register m w.registers }.Closed := by
  refine ⟨h.chains, fun r hr => ?_⟩
  rcases Named.mem_set hr with rfl | hr
  · exact hm
  · exact h.registers r hr

end World.Closed

/-! ## Registrations -/

namespace Build

variable {α β : Type} {P : World → α → Prop} {Q : World → β → Prop}

/-- From a state without unknown composers, a computation comes to another one with no fewer
composers, and `P` holds there of what it gives. -/
structure Closes (P : World → α → Prop) (b : Build α) (w : World) : Prop where
  closed : (b.outcome w).2.Closed
  length_le : w.composers.length ≤ (b.outcome w).2.composers.length
  gives : ∀ a, (b.outcome w).1 = .ok a → P (b.outcome w).2 a

theorem closes_pure (hw : w.Closed) {a : α} (h : P w a) : Closes P (pure a) w :=
  ⟨hw, Nat.le_refl _, fun _ heq => Except.ok.inj heq ▸ h⟩

theorem closes_throw (hw : w.Closed) (f : Fault) : Closes P (throw f : Build α) w :=
  ⟨hw, Nat.le_refl _, nofun⟩

theorem Closes.bind {b : Build α} {k : α → Build β} (h : Closes P b w)
    (hk : ∀ a w', w'.Closed → w.composers.length ≤ w'.composers.length → P w' a →
      Closes Q (k a) w') : Closes Q (b >>= k) w := by
  obtain ⟨hclosed, hle, hgives⟩ := h
  rcases hb : b.outcome w with ⟨f | a, w'⟩ <;> rw [hb] at hclosed hle hgives
  · have heq : (b >>= k).outcome w = (.error f, w') := by rw [outcome_bind, hb]
    exact ⟨heq ▸ hclosed, heq ▸ hle, heq ▸ nofun⟩
  · have heq : (b >>= k).outcome w = (k a).outcome w' := by rw [outcome_bind, hb]
    obtain ⟨hclosed', hle', hgives'⟩ := hk a w' hclosed hle (hgives a rfl)
    exact ⟨heq ▸ hclosed', heq ▸ hle.trans hle', heq ▸ hgives'⟩

theorem closes_modify {f : World → World} (h : (f w).Closed)
    (hle : w.composers.length ≤ (f w).composers.length) :
    Closes (fun v (_ : Unit) => v = f w) (modify f) w := ⟨h, hle, fun _ _ => rfl⟩

theorem closes_modifyBot (hw : w.Closed) (id : Nat) (f : BotState → BotState) :
    Closes (fun _ (_ : Unit) => True) (modify (World.modifyBot id f)) w := by
  have hlength : (w.modifyBot id f).composers.length = w.composers.length := List.length_modify ..
  exact ⟨hw.modifyBot id f, hlength.ge, fun _ _ => trivial⟩

theorem closes_get (hw : w.Closed) {k : World → Build β} (h : Closes Q (k w) w) :
    Closes Q (get >>= k) w :=
  have hget : Closes (fun v u => v = w ∧ u = w) (get : Build World) w :=
    ⟨hw, Nat.le_refl _, fun _ hu => ⟨rfl, (Except.ok.inj hu).symm⟩⟩
  hget.bind fun _ _ _ _ hu => by
    obtain ⟨rfl, rfl⟩ := hu
    exact h

theorem closes_ofExcept (hw : w.Closed) (e : Except Fault α) :
    Closes (fun _ _ => True) (ofExcept e) w := by
  cases e with
  | ok a => exact closes_pure hw trivial
  | error f => exact closes_throw hw f

/-- What only builds middleware changes no composer. -/
theorem closes_of_gives (hw : w.Closed) {b : Build α} (hb : ∀ {R}, Sources R → Respects R b)
    {P : α → Prop} (hgives : Gives w.registers P b) : Closes (fun _ => P) b w := by
  obtain ⟨events, heq⟩ := exists_events hb w
  exact ⟨heq ▸ ⟨hw.chains, hw.registers⟩, heq ▸ Nat.le_refl _, (hgives w rfl).1⟩

/-! ### Middleware -/

theorem closes_buildAll (hw : w.Closed) (es : List Expr) :
    Closes (fun _ ms => ∀ m ∈ ms, m.Within w.Knows) (buildAll es) w :=
  closes_of_gives hw (fun hR => respects_buildAll hR es)
    (gives_mapM fun e _ => hw.denotes.gives_expr (e.within_knows w))

theorem closes_compose (hw : w.Closed) {ms : List Middleware}
    (hms : ∀ m ∈ ms, m.Within w.Knows) :
    Closes (fun _ l => l.Within w.Knows) (compose ms) w :=
  closes_of_gives hw (fun hR => respects_compose hR ms) (hw.denotes.toComposes.gives_compose hms)

theorem closes_spec (hw : w.Closed) (s : Spec) :
    Closes (fun _ ms => ∀ m ∈ ms, m.Within w.Knows) s.build w :=
  closes_of_gives hw (fun hR => respects_spec hR s) (hw.denotes.gives_spec (by
    cases s with
    | one e => exact e.within_knows w
    | many es => exact fun e _ => e.within_knows w))

theorem gives_buildChoice (hw : w.Closed) (s : Spec) :
    Gives w.registers (fun found => ∀ mw ∈ found, ∀ m ∈ mw, m.Within w.Knows) s.buildChoice := by
  have hE := hw.denotes
  cases s with
  | one e =>
    refine (hE.gives_expr (e.within_knows w)).bind fun m hm => ?_
    split
    · exact gives_pure nofun
    · refine gives_pure fun mw hmw => ?_
      obtain rfl := Option.some.inj hmw
      exact hE.toComposes.listed hm
  | many es =>
    refine (gives_mapM fun e _ => hE.gives_expr (e.within_knows w)).bind fun mw hmw => ?_
    exact gives_pure fun mw' h => Option.some.inj h ▸ hmw

theorem mem_of_setHandler {key : Json} {mw : Option (List Middleware)}
    {handlers : List (Json × Option (List Middleware))} {h : Json × Option (List Middleware)}
    (hmem : h ∈ setHandler key mw handlers) : h.2 = mw ∨ h ∈ handlers := by
  induction handlers with
  | nil => exact .inl (List.mem_singleton.mp hmem ▸ rfl)
  | cons first rest ih =>
    unfold setHandler at hmem
    split at hmem
    · rcases List.mem_cons.mp hmem with rfl | hmem
      · exact .inl rfl
      · exact .inr (List.mem_cons_of_mem _ hmem)
    · rcases List.mem_cons.mp hmem with rfl | hmem
      · exact .inr List.mem_cons_self
      · exact (ih hmem).imp_right (List.mem_cons_of_mem _)

/-- All middleware of the handlers is known. -/
def HandlersWithin (P : Part → Prop) (handlers : List (Json × Option (List Middleware))) : Prop :=
  ∀ h ∈ handlers, ∀ mw ∈ h.2, ∀ m ∈ mw, m.Within P

theorem gives_handlersOf (hw : w.Closed) (handlers : List (Json × Spec))
    {acc : List (Json × Option (List Middleware))} (hacc : HandlersWithin w.Knows acc) :
    Gives w.registers (HandlersWithin w.Knows) (handlersOf handlers acc) := by
  induction handlers generalizing acc with
  | nil => exact gives_pure hacc
  | cons h rest ih =>
    refine (gives_buildChoice hw h.2).bind fun found hfound => ?_
    have hkey : Gives w.registers (fun _ => True) (ofExcept h.1.asKey) := by
      rcases h.1.asKey with f | key
      · exact gives_throw f
      · exact gives_pure trivial
    refine hkey.bind fun key _ => ih fun h hmem => ?_
    rcases mem_of_setHandler hmem with heq | hmem
    · exact heq ▸ hfound
    · exact hacc h hmem

/-! ### Combinators -/

/-- The state has the composer. -/
def Has (w : World) (id : Nat) : Prop := id < w.composers.length

theorem within_composer {id : Nat} (h : Has w id) : (Link.composer id).Within w.Knows := by
  intro part hpart other heq
  cases hpart
  cases heq
  exact h

theorem closes_newComposer (hw : w.Closed) {c : Composer} (hc : c.chain.Within w.Knows) :
    Closes Has (newComposer c) w := by
  have hlt : w.composers.length < (w.addComposer c).composers.length := by simp [World.addComposer]
  exact ⟨hw.addComposer hc, hlt.le, fun id hid => Except.ok.inj hid ▸ hlt⟩

theorem closes_composerOf (hw : w.Closed) {ms : List Middleware}
    (hms : ∀ m ∈ ms, m.Within w.Knows) : Closes Has (composerOf ms) w :=
  (closes_compose hw hms).bind fun _ _ hw' hle hl =>
    closes_newComposer hw' fun _ hpart => (hl hpart).mono hle

theorem closes_use (hw : w.Closed) (id : Nat) {ms : List Middleware}
    (hms : ∀ m ∈ ms, m.Within w.Knows) : Closes Has (use id ms) w := by
  refine (closes_composerOf hw hms).bind fun child v hv _ hchild => ?_
  have hlength : (v.append id (.composer child)).composers.length = v.composers.length := by
    simp [World.append, World.modifyComposer]
  refine (closes_modify (hv.append id (within_composer hchild)) hlength.ge).bind ?_
  rintro _ _ hv' - rfl
  exact closes_pure hv' (hchild.trans_eq hlength.symm)

theorem closes_useLink (hw : w.Closed) (id : Nat) {l : Link} (hl : l.Within w.Knows) :
    Closes Has (useLink id l) w := closes_use hw id fun m hm part hpart => by
  obtain rfl := List.mem_singleton.mp hm
  cases hpart with
  | link hpart => exact hl hpart

/-- The part is no other composer. -/
def Only (child : Nat) (part : Part) : Prop := ∀ id, part = .composer id → id = child

/-- A link that enters a new composer and no other one. -/
theorem closes_around (hw : w.Closed) (id : Nat) {ms : List Middleware}
    (hms : ∀ m ∈ ms, m.Within w.Knows) {l : Nat → Link}
    (hl : ∀ child, (l child).Within (Only child)) :
    Closes Has (do
      let child ← composerOf ms
      let _ ← useLink id (l child)
      pure child) w := by
  refine (closes_composerOf hw hms).bind fun child v hv _ hchild => ?_
  have hwithin : (l child).Within v.Knows := fun part hpart other heq =>
    hl child hpart other heq ▸ hchild
  exact (closes_useLink hv id hwithin).bind fun _ _ hv' hle _ =>
    closes_pure hv' (hchild.trans_le hle)

theorem closes_filter (hw : w.Closed) (id : Nat) (p : Probe Condition) (negated : Bool)
    {ms : List Middleware} (hms : ∀ m ∈ ms, m.Within w.Knows) :
    Closes Has (filter id p negated ms) w := by
  refine closes_around hw id hms fun child part hpart => ?_
  cases hpart with
  | lazily hpart =>
    cases hpart with
    | branch => exact nofun
    | yes hm hpart =>
      obtain rfl := List.mem_singleton.mp hm
      cases hpart
      exact fun _ heq => (Part.composer.inj heq).symm
    | no hm hpart =>
      obtain rfl := List.mem_singleton.mp hm
      cases hpart with
      | link hpart => cases hpart

theorem closes_fork (hw : w.Closed) (id : Nat) {ms : List Middleware}
    (hms : ∀ m ∈ ms, m.Within w.Knows) : Closes Has (fork id ms) w := by
  refine closes_around hw id hms fun child part hpart => ?_
  cases hpart
  exact fun _ heq => (Part.composer.inj heq).symm

theorem closes_boundary (hw : w.Closed) (id : Nat) (handler : Script) {ms : List Middleware}
    (hms : ∀ m ∈ ms, m.Within w.Knows) : Closes Has (boundary id handler ms) w := by
  refine closes_around hw id hms fun child part hpart => ?_
  cases hpart with
  | inner => exact fun _ heq => (Part.composer.inj heq).symm
  | handler => exact nofun

theorem closes_listen (hw : w.Closed) (id : Nat) (l : Listener) {ms : List Middleware}
    (hms : ∀ m ∈ ms, m.Within w.Knows) : Closes Has (listen id l ms) w := by
  have hplace : ∀ {v : World}, v.Closed → w.composers.length ≤ v.composers.length →
      Closes Has (placeListener id l ms) v := fun {v} hv hle =>
    (closes_ofExcept hv l.condition).bind fun _ _ hv' hle' _ =>
      closes_filter hv' id _ false fun m hm _ hpart => (hms m hm hpart).mono (hle.trans hle')
  refine closes_get hw ?_
  split
  · refine (closes_ofExcept hw _).bind fun kinds v hv hle _ => ?_
    exact (closes_modifyBot hv id _).bind fun _ _ hv' hle' _ => hplace hv' (hle.trans hle')
  · exact hplace hw (Nat.le_refl _)

theorem closes_probe (hw : w.Closed) (p : Probe Listener) :
    Closes (fun _ _ => True) p.build w := by
  have heq := outcome_probe p w w
  exact ⟨heq ▸ hw, heq ▸ Nat.le_refl _, fun _ _ => trivial⟩

/-- A link that chooses from known middleware is known. -/
theorem within_branch {P : Part → Prop} {p : Probe Condition} {yes no : List Middleware}
    (hp : P (.probe p)) (hyes : ∀ m ∈ yes, m.Within P) (hno : ∀ m ∈ no, m.Within P) :
    (Link.lazily (.branch p false yes no)).Within P := by
  intro part hpart
  cases hpart with
  | lazily hpart =>
    cases hpart with
    | branch => exact hp
    | yes hm hpart => exact hyes _ hm hpart
    | no hm hpart => exact hno _ hm hpart

theorem within_route {P : Part → Prop} {p : Probe Condition}
    {handlers : List (Json × Option (List Middleware))} {fallback : List Middleware}
    (hp : P (.probe p)) (hhandlers : HandlersWithin P handlers)
    (hfallback : ∀ m ∈ fallback, m.Within P) :
    (Link.lazily (.route p handlers fallback)).Within P := by
  intro part hpart
  cases hpart with
  | lazily hpart =>
    cases hpart with
    | route => exact hp
    | handler hmw hm hpart => exact hhandlers _ hmw _ rfl _ hm hpart
    | fallback hm hpart => exact hfallback _ hm hpart

theorem within_table (w : World) (p : Probe Condition) (table : List (String × Spec))
    (default : Spec) : (Link.lazily (.table p table default)).Within w.Knows := by
  have hspec : ∀ {s : Spec} {part}, s.Has part → w.Knows part := fun h id heq => by
    cases h with
    | one h => exact absurd heq (h.ne_composer id)
    | many _ h => exact absurd heq (h.ne_composer id)
  intro part hpart
  cases hpart with
  | lazily hpart =>
    cases hpart with
    | table => exact nofun
    | row _ hpart => exact hspec hpart
    | default hpart => exact hspec hpart

/-- The composer that a combinator gives is there afterwards. -/
theorem closes_register (hw : w.Closed) (id : Nat) (r : Registration) :
    Closes Has (register id r) w := by
  cases r with
  | use es =>
    exact (closes_buildAll hw es).bind fun _ _ hv hle hms =>
      closes_use hv id fun m hm _ hpart => (hms m hm hpart).mono hle
  | fork es =>
    exact (closes_buildAll hw es).bind fun _ _ hv hle hms =>
      closes_fork hv id fun m hm _ hpart => (hms m hm hpart).mono hle
  | boundary actions plain es =>
    exact (closes_buildAll hw es).bind fun _ _ hv hle hms =>
      closes_boundary hv id _ fun m hm _ hpart => (hms m hm hpart).mono hle
  | listen l es =>
    exact (closes_buildAll hw es).bind fun _ _ hv hle hms =>
      closes_listen hv id l fun m hm _ hpart => (hms m hm hpart).mono hle
  | filter p es | drop p es =>
    exact (closes_buildAll hw es).bind fun _ _ hv hle hms => (closes_probe hv p).bind
      fun q _ hv' hle' _ => closes_filter hv' id q _ fun m hm _ hpart =>
        (hms m hm hpart).mono (hle.trans hle')
  | branch p yes no =>
    refine (closes_probe hw p).bind fun q v₁ h₁ _ _ => (closes_spec h₁ yes).bind
      fun yes v₂ h₂ hle₂ hyes => (closes_spec h₂ no).bind fun no v₃ h₃ hle₃ hno => ?_
    exact closes_useLink h₃ id (within_branch nofun
      (fun m hm _ hpart => (hyes m hm hpart).mono (hle₂.trans hle₃))
      fun m hm _ hpart => (hno m hm hpart).mono hle₃)
  | lazily p table default =>
    exact (closes_probe hw p).bind fun q v hv _ _ =>
      closes_useLink hv id (within_table v q table default)
  | route p handlers fallback =>
    refine (closes_probe hw p).bind fun q v₁ h₁ _ _ =>
      (closes_of_gives h₁ (fun hR => respects_handlersOf hR handlers [])
        (gives_handlersOf h₁ handlers nofun)).bind fun handlers v₂ h₂ hle₂ hhandlers =>
          (closes_of_gives h₂ (fun hR => respects_buildChoice hR fallback)
            (gives_buildChoice h₂ fallback)).bind fun fallback v₃ h₃ hle₃ hfallback => ?_
    refine closes_useLink h₃ id (within_route nofun
      (fun h hmem mw hmw m hm _ hpart => (hhandlers h hmem mw hmw m hm hpart).mono
        (hle₂.trans hle₃)) ?_)
    cases fallback with
    | none => exact nofun
    | some mw => exact fun m hm _ hpart => (hfallback mw rfl m hm hpart).mono hle₃

/-! ### Steps -/

theorem closes_store (hw : w.Closed) (into : Option String) {m : Middleware}
    (hm : m.Within w.Knows) : Closes (fun _ _ => True) (store into m) w := by
  cases into with
  | none => exact closes_pure hw trivial
  | some register =>
    exact ⟨hw.setRegister register hm, Nat.le_refl _, fun _ _ => trivial⟩

theorem closes_storeComposer (hw : w.Closed) (into : Option String) {id : Nat} (hid : Has w id) :
    Closes (fun _ _ => True) (store into (.composer id)) w :=
  closes_store hw into fun _ hpart _ heq => by
    cases hpart
    cases heq
    exact hid

theorem closes_newBot (hw : w.Closed) (into : Option String) (b : BotState) :
    Closes (fun _ _ => True) (newBot into b) w :=
  (closes_newComposer hw Link.within_pass).bind fun _ _ hv _ hid => closes_storeComposer hv into hid

theorem closes_composerNamed (hw : w.Closed) (register : String) :
    Closes (fun _ => Has w) (composerNamed register) w := by
  refine closes_of_gives hw (fun hR => respects_composerNamed hR register) ?_
  have hnamed := hw.denotes.gives_expr ((Expr.named register).within_knows w)
  refine Gives.bind (b := Build.named register) hnamed fun m hm => ?_
  split
  · exact gives_pure (hm (.composer _) _ rfl)
  · exact gives_throw _
  · exact gives_throw _

theorem closes_identityOf (hw : w.Closed) (v : Json) :
    Closes (fun _ _ => True) (identityOf v) w := by
  unfold identityOf
  split
  · split
    · exact closes_pure hw trivial
    · exact closes_throw hw _
  · exact closes_pure hw trivial

theorem closes_step (hw : w.Closed) (s : Step) : Closes (fun _ _ => True) (step s) w := by
  cases s with
  | create into es =>
    exact (closes_buildAll hw es).bind fun _ _ h₁ hle hms =>
      (closes_composerOf h₁ fun m hm _ hpart => (hms m hm hpart).mono hle).bind
        fun _ _ h₂ _ hid => closes_storeComposer h₂ into hid
  | createBot into identity throws =>
    cases identity with
    | some v =>
      exact (closes_identityOf hw v).bind fun _ _ h₁ _ _ => closes_newBot h₁ into _
    | none =>
      have hme : Closes (fun _ _ => True) (do pure (some (← get).me) : Build (Option Identity)) w :=
        closes_get hw (closes_pure hw trivial)
      exact hme.bind fun identity _ h₁ _ _ =>
        closes_newBot h₁ into { identity, contextThrows := throws }
  | createBotFrom into fields =>
    exact (closes_ofExcept hw _).bind fun _ _ h₁ _ _ => closes_newBot h₁ into _
  | register on into r =>
    exact (closes_composerNamed hw on).bind fun id _ h₁ _ _ =>
      (closes_register h₁ id r).bind fun _ _ h₂ _ hchild => closes_storeComposer h₂ into hchild
  | grab on into =>
    exact (closes_composerNamed hw on).bind fun id _ h₁ hle hid =>
      closes_store h₁ into fun _ hpart => by
        cases hpart with
        | link hpart => exact within_composer (hid.trans_le hle) hpart
  | handle on actions plain =>
    refine (closes_composerNamed hw on).bind fun id v hv _ _ => closes_get hv ?_
    split
    · exact closes_modifyBot hv id _
    · exact closes_throw hv _

end Build

/-- Whatever is registered, no unknown composers come into a state. -/
theorem World.Closed.step (hw : w.Closed) (s : Step) : ((Build.step s).outcome w).2.Closed :=
  (Build.closes_step hw s).closed

theorem World.closed_empty (client : Option Client) (me : Identity) :
    ({ client, me } : World).Closed := ⟨nofun, nofun⟩

end UpdateDispatch
