import UpdateDispatch.Proofs.Dispatch.Observation
import UpdateDispatch.Proofs.Dispatch.Parts

/-!
# Listeners in the tree of a bot

What a combinator returns can be reached from the composer that it was called on
(`reaches_register`), so listeners end up all over the tree of a bot.

What a bot observes comes from the listeners that were registered on the bot itself, and from no
others (`mem_observed_after`). So it covers the listeners of its tree exactly if each of their kinds
is one that a listener on the bot itself waits for (`tracked_iff`).
-/

namespace UpdateDispatch

open Relation

/-! ## The tree of a composer -/

namespace World

variable {w : World} {id : Nat} {l : Link}

theorem reaches_hook (hid : id < w.composers.length) :
    (w.hook id l).Reaches id w.composers.length := by
  refine .single (.chain ?_)
  rw [chain_hook_self hid]
  exact .second (.composer _)

theorem reaches_of_hook (hid : id < w.composers.length) {child : Nat}
    (h : l.Has (.composer child)) : (w.hook id l).Reaches id child := by
  refine (reaches_hook hid).tail (.chain ?_)
  rw [chain_hook_new hid]
  exact h

end World

namespace Build

variable {α β : Type}

theorem exists_of_outcome_bind {b : Build α} {k : α → Build β} {w w' : World} {a : β}
    (h : (b >>= k).outcome w = (.ok a, w')) :
    ∃ a₁ w₁, b.outcome w = (.ok a₁, w₁) ∧ (k a₁).outcome w₁ = (.ok a, w') := by
  rw [outcome_bind] at h
  rcases hb : b.outcome w with ⟨f | a₁, w₁⟩ <;> rw [hb] at h
  · cases congrArg Prod.fst h
  · exact ⟨a₁, w₁, rfl, h⟩

/-- What follows after middleware was built starts where that started, but for what was noted. -/
theorem exists_of_sources_bind {b : Build α} {k : α → Build β}
    (hR : ∀ {R}, Sources R → Respects R b) {w w' : World} {a : β}
    (h : (b >>= k).outcome w = (.ok a, w')) :
    ∃ a₁ events, (k a₁).outcome { w with events } = (.ok a, w') := by
  obtain ⟨a₁, w₁, hb, h⟩ := exists_of_outcome_bind h
  obtain ⟨events, hevents⟩ := exists_events hR w
  rw [hb] at hevents
  obtain rfl : w₁ = { w with events } := hevents
  exact ⟨a₁, events, h⟩

variable {id child : Nat} {w w' : World}

/-- A new composer with middleware is the last one. -/
theorem exists_of_composerOf {mw : List Middleware}
    (h : (composerOf mw).outcome w = (.ok child, w')) :
    ∃ events l, child = w.composers.length ∧
      w' = ({ w with events } : World).addComposer { chain := l } := by
  obtain ⟨l, events, h⟩ := exists_of_sources_bind (fun hR => respects_compose hR mw) h
  cases h
  exact ⟨events, l, rfl, rfl⟩

theorem reaches_useLink (hid : id < w.composers.length) {l : Link}
    (h : (useLink id l).outcome w = (.ok child, w')) : w'.Reaches id child := by
  have hhook : (useLink id l).outcome w = (.ok w.composers.length, w.hook id l) := rfl
  rw [hhook] at h
  cases h
  exact World.reaches_hook hid

theorem reaches_use (hid : id < w.composers.length) {mw : List Middleware}
    (h : (use id mw).outcome w = (.ok child, w')) : w'.Reaches id child := by
  obtain ⟨c, w₁, hcomposer, h⟩ := exists_of_outcome_bind h
  obtain ⟨events, l, rfl, rfl⟩ := exists_of_composerOf hcomposer
  cases h
  exact World.reaches_hook (w := { w with events }) hid

/-- A composer with middleware is entered by a link that is appended. -/
theorem reaches_enclosed (hid : id < w.composers.length) {mw : List Middleware}
    {link : Nat → Link} (hlink : ∀ c, (link c).Has (.composer c))
    (h : (do
      let c ← composerOf mw
      let _ ← useLink id (link c)
      pure c : Build Nat).outcome w = (.ok child, w')) : w'.Reaches id child := by
  obtain ⟨c, w₁, hcomposer, h⟩ := exists_of_outcome_bind h
  obtain ⟨events, l, rfl, rfl⟩ := exists_of_composerOf hcomposer
  cases h
  refine World.reaches_of_hook (w := ({ w with events } : World).addComposer { chain := l }) ?_
    (hlink _)
  exact hid.trans (by simp [World.addComposer])

theorem reaches_filter (hid : id < w.composers.length) {p : Probe Condition} {negated : Bool}
    {mw : List Middleware} (h : (filter id p negated mw).outcome w = (.ok child, w')) :
    w'.Reaches id child :=
  reaches_enclosed hid (fun _ => .lazily (.yes (List.mem_singleton_self _) (.composer _))) h

theorem reaches_placeListener (hid : id < w.composers.length) {l : Listener} {mw : List Middleware}
    (h : (placeListener id l mw).outcome w = (.ok child, w')) : w'.Reaches id child := by
  obtain ⟨_, _, h⟩ := exists_of_sources_bind (fun _ => respects_ofExcept _) h
  exact reaches_filter (by exact hid) h

theorem reaches_listen (hid : id < w.composers.length) {l : Listener} {mw : List Middleware}
    (h : (listen id l mw).outcome w = (.ok child, w')) : w'.Reaches id child := by
  rcases hbot : w.bot? id with _ | b
  · rw [outcome_listen_of_no_bot hbot] at h
    exact reaches_placeListener hid h
  · rw [outcome_listen_of_bot (by rw [hbot]; rfl)] at h
    rcases hkinds : observedKinds l with f | _ <;> rw [hkinds] at h
    · cases congrArg Prod.fst h
    · refine reaches_placeListener ?_ h
      rwa [World.modifyBot, World.modifyComposer, List.length_modify]

/-- What a combinator returns can be reached from the composer that it was called on. -/
theorem reaches_register {r : Registration} (hid : id < w.composers.length)
    (h : (register id r).outcome w = (.ok child, w')) : w'.Reaches id child := by
  cases r with
  | use mw =>
    obtain ⟨_, _, h⟩ := exists_of_sources_bind (fun hR => respects_buildAll hR mw) h
    exact reaches_use (by exact hid) h
  | fork mw =>
    obtain ⟨_, _, h⟩ := exists_of_sources_bind (fun hR => respects_buildAll hR mw) h
    exact reaches_enclosed (by exact hid) (fun _ => .fork _) h
  | filter p mw | drop p mw =>
    obtain ⟨_, _, h⟩ := exists_of_sources_bind (fun hR => respects_buildAll hR mw) h
    obtain ⟨_, _, h⟩ := exists_of_sources_bind (fun _ => respects_probe p) h
    exact reaches_filter (by exact hid) h
  | branch p yes no =>
    obtain ⟨_, _, h⟩ := exists_of_sources_bind (fun _ => respects_probe p) h
    obtain ⟨_, _, h⟩ := exists_of_sources_bind (fun hR => respects_spec hR yes) h
    obtain ⟨_, _, h⟩ := exists_of_sources_bind (fun hR => respects_spec hR no) h
    exact reaches_useLink (by exact hid) h
  | lazily factory table default =>
    obtain ⟨_, _, h⟩ := exists_of_sources_bind (fun _ => respects_probe factory) h
    exact reaches_useLink (by exact hid) h
  | route router handlers fallback =>
    obtain ⟨_, _, h⟩ := exists_of_sources_bind (fun _ => respects_probe router) h
    obtain ⟨_, _, h⟩ := exists_of_sources_bind (fun hR => respects_handlersOf hR handlers []) h
    obtain ⟨_, _, h⟩ := exists_of_sources_bind (fun hR => respects_buildChoice hR fallback) h
    exact reaches_useLink (by exact hid) h
  | boundary actions plain mw =>
    obtain ⟨_, _, h⟩ := exists_of_sources_bind (fun hR => respects_buildAll hR mw) h
    exact reaches_enclosed (by exact hid) (fun _ => .inner _ _) h
  | listen l mw =>
    obtain ⟨_, _, h⟩ := exists_of_sources_bind (fun hR => respects_buildAll hR mw) h
    exact reaches_listen (by exact hid) h

/-! ## What is observed -/

/-- A computation that leaves what bots observe as it is. -/
def KeepsObserved (b : Build α) : Prop := ∀ w id, (b.outcome w).2.observed id = w.observed id

theorem keepsObserved_of_sources {b : Build α} (h : ∀ {R}, Sources R → Respects R b) :
    KeepsObserved b := fun w id => by
  obtain ⟨events, hevents⟩ := exists_events h w
  rw [hevents]
  rfl

theorem keepsObserved_pure (a : α) : KeepsObserved (pure a) := fun _ _ => rfl

theorem keepsObserved_throw (f : Fault) : KeepsObserved (throw f : Build α) := fun _ _ => rfl

theorem keepsObserved_ofExcept (e : Except Fault α) : KeepsObserved (ofExcept e) :=
  keepsObserved_of_sources fun _ => respects_ofExcept e

theorem keepsObserved_modify {f : World → World} (h : ∀ w id, (f w).observed id = w.observed id) :
    KeepsObserved (modify f : Build Unit) := h

theorem KeepsObserved.bind {b : Build α} {k : α → Build β} (h : KeepsObserved b)
    (hk : ∀ a, KeepsObserved (k a)) : KeepsObserved (b >>= k) :=
  related_bind (Q := fun w w' => ∀ id, w'.observed id = w.observed id)
    (fun h h' id => (h' id).trans (h id)) h hk

theorem keepsObserved_get {k : World → Build α} (h : ∀ w, KeepsObserved (k w)) :
    KeepsObserved (get >>= k) := fun w => h w w

theorem keepsObserved_append (id : Nat) (l : Link) :
    KeepsObserved (modify (World.append id l)) :=
  keepsObserved_modify fun w other => by rw [World.observed, World.bot?_append]; rfl

/-- A new bot observes nothing. -/
theorem keepsObserved_newComposer {c : Composer} (hc : ∀ b ∈ c.bot, b.observed = []) :
    KeepsObserved (newComposer c) := by
  refine keepsObserved_get fun w => (keepsObserved_modify fun w id => ?_).bind fun _ =>
    keepsObserved_pure _
  unfold World.observed World.bot? World.addComposer
  rw [List.getElem?_append]
  split
  · rfl
  · next hid =>
    rw [List.getElem?_eq_none (not_lt.mp hid)]
    rcases hindex : id - w.composers.length with _ | _
    · rcases hbot : c.bot with _ | b
      · simp [hbot]
      · simp [hbot, hc b hbot]
    · rfl

theorem keepsObserved_composerOf (mw : List Middleware) : KeepsObserved (composerOf mw) :=
  (keepsObserved_of_sources fun hR => respects_compose hR mw).bind fun _ =>
    keepsObserved_newComposer nofun

theorem keepsObserved_use (id : Nat) (mw : List Middleware) : KeepsObserved (use id mw) :=
  (keepsObserved_composerOf mw).bind fun _ => (keepsObserved_append id _).bind fun _ =>
    keepsObserved_pure _

theorem keepsObserved_enclosed (id : Nat) (mw : List Middleware) (link : Nat → Link) :
    KeepsObserved (do
      let c ← composerOf mw
      let _ ← useLink id (link c)
      pure c : Build Nat) :=
  (keepsObserved_composerOf mw).bind fun _ => (keepsObserved_use id _).bind fun _ =>
    keepsObserved_pure _

/-- Bots take note of listeners only. -/
theorem keepsObserved_register (id : Nat) {r : Registration} (hr : ∀ l mw, r ≠ .listen l mw) :
    KeepsObserved (register id r) := by
  cases r with
  | use mw =>
    exact (keepsObserved_of_sources fun hR => respects_buildAll hR mw).bind fun _ =>
      keepsObserved_use id _
  | fork mw | boundary _ _ mw =>
    exact (keepsObserved_of_sources fun hR => respects_buildAll hR mw).bind fun _ =>
      keepsObserved_enclosed id _ _
  | filter p mw | drop p mw =>
    exact (keepsObserved_of_sources fun hR => respects_buildAll hR mw).bind fun _ =>
      (keepsObserved_of_sources fun _ => respects_probe p).bind fun _ =>
        keepsObserved_enclosed id _ _
  | branch p yes no =>
    exact (keepsObserved_of_sources fun _ => respects_probe p).bind fun _ =>
      (keepsObserved_of_sources fun hR => respects_spec hR yes).bind fun _ =>
        (keepsObserved_of_sources fun hR => respects_spec hR no).bind fun _ =>
          keepsObserved_use id _
  | lazily factory table default =>
    exact (keepsObserved_of_sources fun _ => respects_probe factory).bind fun _ =>
      keepsObserved_use id _
  | route router handlers fallback =>
    exact (keepsObserved_of_sources fun _ => respects_probe router).bind fun _ =>
      (keepsObserved_of_sources fun hR => respects_handlersOf hR handlers []).bind fun _ =>
        (keepsObserved_of_sources fun hR => respects_buildChoice hR fallback).bind fun _ =>
          keepsObserved_use id _
  | listen l mw => exact absurd rfl (hr l mw)

theorem keepsObserved_store (into : Option String) (m : Middleware) :
    KeepsObserved (store into m) := by
  cases into with
  | none => exact keepsObserved_pure ()
  | some register => exact keepsObserved_modify fun _ _ => rfl

theorem keepsObserved_newBot (into : Option String) (b : BotState) (hb : b.observed = []) :
    KeepsObserved (newBot into b) := by
  refine (keepsObserved_newComposer fun b' hb' => ?_).bind fun _ => keepsObserved_store into _
  cases hb'
  exact hb

/-- Steps that register no listener leave what bots observe as it is. -/
theorem keepsObserved_step {s : Step} (hs : ∀ on into l mw, s ≠ .register on into (.listen l mw)) :
    KeepsObserved (step s) := by
  cases s with
  | create into mw =>
    exact (keepsObserved_of_sources fun hR => respects_buildAll hR mw).bind fun _ =>
      (keepsObserved_composerOf _).bind fun _ => keepsObserved_store into _
  | createBot into identity throws =>
    cases identity with
    | some v =>
      exact (keepsObserved_of_sources fun _ => respects_identityOf v).bind fun _ =>
        keepsObserved_newBot into _ rfl
    | none =>
      exact keepsObserved_get fun w => (keepsObserved_pure (some w.me)).bind fun identity =>
        keepsObserved_newBot into { identity, contextThrows := throws } rfl
  | createBotFrom into fields =>
    exact (keepsObserved_ofExcept _).bind fun _ => keepsObserved_newBot into _ rfl
  | register on into r =>
    exact (keepsObserved_of_sources fun hR => respects_composerNamed hR on).bind fun id =>
      (keepsObserved_register id fun l mw hr => hs on into l mw (by rw [hr])).bind fun _ =>
        keepsObserved_store into _
  | grab on into =>
    exact (keepsObserved_of_sources fun hR => respects_composerNamed hR on).bind fun _ =>
      keepsObserved_store into _
  | handle on actions plain =>
    refine (keepsObserved_of_sources fun hR => respects_composerNamed hR on).bind fun id =>
      keepsObserved_get fun w => ?_
    split
    · refine keepsObserved_modify fun w other => ?_
      unfold World.observed
      rw [World.bot?_modifyBot_eq_ite]
      split <;> rcases w.bot? other with _ | _ <;> rfl
    · exact keepsObserved_throw _

end Build

/-! ## Listeners that are registered -/

/-- A call that registers a listener: on which composer, whether that is a bot, and whether the call
succeeds. -/
structure ListenCall where
  on : Nat
  isBot : Bool
  listener : Listener
  done : Bool

/-- The composer and the middleware that a call is made with. -/
def Build.arguments (on : String) (mw : List Expr) : Build (Nat × List Middleware) := do
  let id ← composerNamed on
  pure (id, ← buildAll mw)

/-- The call that a step of registration comes to, if it registers a listener. -/
def Step.listenCall? (w : World) : Step → Option ListenCall
  | .register on _ (.listen l mw) =>
    match (Build.arguments on mw).outcome w with
    | (.ok (id, mw), w') =>
      some { on := id, isBot := (w'.bot? id).isSome, listener := l
             done := ((Build.listen id l mw).outcome w').1.isOk }
    | (.error _, _) => none
  | _ => none

/-- The state after steps of registration. A step that fails does not stop the others. -/
def World.after (steps : List Step) (w : World) : World :=
  steps.foldl (fun w s => ((Build.step s).outcome w).2) w

/-- The calls that steps of registration come to, in order. -/
def listenCalls (w : World) : List Step → List ListenCall
  | [] => []
  | s :: rest => (s.listenCall? w).toList ++ listenCalls ((Build.step s).outcome w).2 rest

/-- What a step adds to what is observed are the kinds of a listener that it registers on a bot. -/
theorem mem_observed_step (w : World) (s : Step) (id : Nat) (kind : String) :
    kind ∈ ((Build.step s).outcome w).2.observed id ↔ kind ∈ w.observed id ∨
      ∃ c ∈ s.listenCall? w, c.on = id ∧ c.isBot = true ∧ kind ∈ c.listener.kinds := by
  by_cases hs : ∃ on into l mw, s = .register on into (.listen l mw)
  · obtain ⟨on, into, l, mw, rfl⟩ := hs
    have hstep : Build.step (.register on into (.listen l mw)) = (do
        let (id, mw) ← Build.arguments on mw
        let child ← Build.listen id l mw
        Build.store into (.composer child)) := by
      simp only [Build.step, Build.register, Build.arguments, bind_assoc, pure_bind]
    have harguments : ∀ id, ((Build.arguments on mw).outcome w).2.observed id = w.observed id :=
      (Build.keepsObserved_of_sources fun hR => (Build.respects_composerNamed hR on).bind fun _ =>
        (Build.respects_buildAll hR mw).bind fun _ => Build.respects_pure _) w
    rw [hstep, Build.outcome_bind, Step.listenCall?]
    rcases hcall : (Build.arguments on mw).outcome w with ⟨f | ⟨on, mw⟩, w'⟩ <;>
      rw [hcall] at harguments
    · simp [← harguments id]
    · have hstored : ∀ v, ((do
          let child ← Build.listen on l mw
          Build.store into (.composer child) : Build Unit).outcome v).2.observed id =
            ((Build.listen on l mw).outcome v).2.observed id := by
        intro v
        rw [Build.outcome_bind]
        rcases (Build.listen on l mw).outcome v with ⟨f | child, v'⟩
        · rfl
        · exact Build.keepsObserved_store into _ v' id
      change kind ∈ ((do
          let child ← Build.listen on l mw
          Build.store into (.composer child) : Build Unit).outcome w').2.observed id ↔ _
      rw [hstored, Build.mem_observed_listen, ← harguments id]
      simp
  · have hkeeps := Build.keepsObserved_step (s := s) fun on into l mw h => hs ⟨on, into, l, mw, h⟩
    have hnone : s.listenCall? w = none := by
      unfold Step.listenCall?
      split
      · exact absurd ⟨_, _, _, _, rfl⟩ hs
      · rfl
    rw [hkeeps w id, hnone]
    simp

/-- What a bot observes after steps of registration are the kinds of the listeners that were
registered on the bot itself. -/
theorem mem_observed_after (w : World) (steps : List Step) (id : Nat) (kind : String) :
    kind ∈ (w.after steps).observed id ↔ kind ∈ w.observed id ∨
      ∃ c ∈ listenCalls w steps, c.on = id ∧ c.isBot = true ∧ kind ∈ c.listener.kinds := by
  induction steps generalizing w with
  | nil => simp [World.after, listenCalls]
  | cons s rest ih =>
    have hafter : w.after (s :: rest) = World.after rest ((Build.step s).outcome w).2 := rfl
    rw [hafter, ih, mem_observed_step, listenCalls, or_assoc]
    simp only [List.mem_append, Option.mem_toList, Option.mem_def, or_and_right, exists_or]

/-- The call registered a listener in the tree of a composer. -/
def ListenCall.InTree (c : ListenCall) (w : World) (id : Nat) : Prop :=
  c.done = true ∧ w.Reaches id c.on

/-- One of the calls was made on the bot itself, with a listener that waits for the kind. -/
def AwaitedItself (calls : List ListenCall) (id : Nat) (kind : String) : Prop :=
  ∃ c ∈ calls, c.on = id ∧ c.isBot = true ∧ kind ∈ c.listener.kinds

/-- After any steps of registration a bot observes exactly the kinds for which a listener on the bot
itself waits. So it observes all kinds of the listeners in its tree exactly if listeners on the bot
itself wait for all of them. And that nothing is reported means that each of these listeners waits
for an allowed kind, whatever the allowed kinds are, exactly if each of them shares a kind with
listeners on the bot itself. -/
theorem tracked_iff {w : World} (hw : ∀ id, w.observed id = []) (steps : List Step) {id : Nat}
    {b : BotState} (hbot : (w.after steps).bot? id = some b) :
    (∀ kind, kind ∈ (w.after steps).observed id ↔ AwaitedItself (listenCalls w steps) id kind) ∧
    ((∀ c ∈ listenCalls w steps, c.InTree (w.after steps) id →
        ∀ kind ∈ c.listener.kinds, kind ∈ (w.after steps).observed id) ↔
      ∀ c ∈ listenCalls w steps, c.InTree (w.after steps) id →
        ∀ kind ∈ c.listener.kinds, AwaitedItself (listenCalls w steps) id kind) ∧
    ((∀ allowed items, Bot.allowedItems b allowed = .ok items →
        (w.after steps).unlistened id allowed = some (.ok []) →
        ∀ c ∈ listenCalls w steps, c.InTree (w.after steps) id → c.listener.kinds ≠ [] →
          ∃ kind ∈ c.listener.kinds, Json.str kind ∈ items) ↔
      ∀ c ∈ listenCalls w steps, c.InTree (w.after steps) id → c.listener.kinds ≠ [] →
        ∃ kind ∈ c.listener.kinds, AwaitedItself (listenCalls w steps) id kind) := by
  have hobserved : ∀ kind,
      kind ∈ (w.after steps).observed id ↔ AwaitedItself (listenCalls w steps) id kind := by
    intro kind
    rw [mem_observed_after, hw, AwaitedItself]
    simp
  have hkinds : (w.after steps).observed id = b.observed := by
    rw [World.observed, hbot]
    rfl
  have hnothing : ∀ allowed items, Bot.allowedItems b allowed = .ok items →
      ((w.after steps).unlistened id allowed = some (.ok []) ↔
        ∀ kind ∈ b.observed, Json.str kind ∈ items) := by
    intro allowed items hitems
    obtain ⟨kinds, hunlistened, -, hmem⟩ := Bot.mem_unlistened hitems
    rw [World.unlistened, hbot, Option.map_some, hunlistened, Option.some.injEq, Except.ok.injEq,
      List.eq_nil_iff_forall_not_mem]
    simp only [hmem, not_and, not_not]
  refine ⟨hobserved, by simp only [hobserved], fun hclaim c hc htree hne => ?_,
    fun hshared allowed items hitems hnone c hc htree hne => ?_⟩
  · -- with what the bot observes as the allowed kinds, nothing is reported
    have hnone := (hnothing _ _ (Bot.allowedItems_names b b.observed)).mpr
      fun kind hkind => List.mem_map_of_mem hkind
    obtain ⟨kind, hkind, hallowed⟩ :=
      hclaim _ _ (Bot.allowedItems_names b b.observed) hnone c hc htree hne
    refine ⟨kind, hkind, (hobserved kind).mp ?_⟩
    simpa [hkinds] using hallowed
  · obtain ⟨kind, hkind, hawaited⟩ := hshared c hc htree hne
    exact ⟨kind, hkind, (hnothing allowed items hitems).mp hnone kind
      (hkinds ▸ (hobserved kind).mpr hawaited)⟩

/-- A dispatcher without composers. -/
def emptyWorld : World := { client := none, me := default }

/-- A bot, a filter on it that lets everything pass, and a listener for polls below the filter. -/
def pollBelowFilter : List Step :=
  [.createBot (some "b") none none,
    .register "b" (some "c") (.filter { source := .constant (.bool true) } []),
    .register "c" none (.listen (.filter (.str "poll")) [])]

/-- The call on the child of the filter. -/
def pollCall : ListenCall :=
  { on := 1, isBot := false, listener := .filter (.str "poll"), done := true }

/-- With a listener for polls on the bot too, all kinds of its tree are observed. -/
theorem tracked_iff_poll_on_bot :
    (∀ id, emptyWorld.observed id = []) ∧
    ∀ c ∈ listenCalls emptyWorld
        (pollBelowFilter ++ [.register "b" none (.listen (.filter (.str "poll")) [])]),
      c.InTree (emptyWorld.after
        (pollBelowFilter ++ [.register "b" none (.listen (.filter (.str "poll")) [])])) 0 →
      ∀ kind ∈ c.listener.kinds, kind ∈ (emptyWorld.after
        (pollBelowFilter ++ [.register "b" none (.listen (.filter (.str "poll")) [])])).observed
          0 := by
  have hcalls : listenCalls emptyWorld
      (pollBelowFilter ++ [.register "b" none (.listen (.filter (.str "poll")) [])]) =
      [pollCall, { on := 0, isBot := true, listener := .filter (.str "poll"), done := true }] := by
    cbv
  have hkinds : (Listener.filter (.str "poll")).kinds = ["poll"] := by cbv
  have hw : ∀ id, emptyWorld.observed id = [] := fun _ => rfl
  have hbot : (emptyWorld.after
      (pollBelowFilter ++ [.register "b" none (.listen (.filter (.str "poll")) [])])).bot? 0 =
      some { identity := some default, observed := ["poll"] } := by cbv
  refine ⟨hw, (tracked_iff hw _ hbot).2.1.mpr fun c hc _ kind hkind => ?_⟩
  rw [hcalls] at hc ⊢
  refine ⟨_, List.mem_cons_of_mem _ List.mem_cons_self, rfl, rfl, ?_⟩
  rcases List.mem_pair.mp hc with rfl | rfl <;> exact hkind

/-- The listener below the filter waits for polls. The bot does not observe them, and it reports
nothing if only messages are allowed. -/
theorem poll_below_filter_is_lost :
    listenCalls emptyWorld pollBelowFilter = [pollCall] ∧
    pollCall.InTree (emptyWorld.after pollBelowFilter) 0 ∧
    pollCall.listener.kinds = ["poll"] ∧
    (emptyWorld.after pollBelowFilter).observed 0 = [] ∧
    (emptyWorld.after pollBelowFilter).unlistened 0 (.arr [.str "message"]) = some (.ok []) := by
  have hroot : (emptyWorld.after pollBelowFilter).chain 0 = .concat .pass (.composer 2) := by cbv
  have hgate : (emptyWorld.after pollBelowFilter).chain 2 =
      Build.gate { source := .constant (.bool true) } false 1 := by cbv
  refine ⟨by cbv, ⟨rfl, ?_⟩, by cbv, by cbv, by cbv⟩
  refine ReflTransGen.head (b := .composer 2) (.chain ?_) (.single (.chain ?_))
  · rw [hroot]
    exact .second (.composer 2)
  · rw [hgate]
    exact .lazily (.yes (List.mem_singleton_self _) (.composer 1))

end UpdateDispatch
