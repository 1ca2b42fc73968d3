import UpdateDispatch.Proofs.Dispatch.Observation
import UpdateDispatch.Proofs.Dispatch.Responses

/-!
# Registrations that are refused

A registration may be refused for its middleware, for a query or for a key. All that can be refused
is looked at before anything is added: up to then containers are asked for their functions, which is
noted, and a bot takes note of the update kinds of a listener (`Build.exists_of_register_error`).
Nothing in a chain looks at either, so all that comes later is as if there had been no call
(`refused_registration_unnoticed`).
-/

namespace UpdateDispatch

namespace Build

variable {α β : Type} {w w' : World} {f : Fault}

/-- The computation notes at most which containers are asked. -/
def Notes (b : Build α) : Prop := ∀ w, ∃ events, (b.outcome w).2 = { w with events }

/-- The computation notes at most which containers are asked, if it fails. -/
def NotesOrSucceeds (b : Build α) : Prop :=
  ∀ w f w', b.outcome w = (.error f, w') → ∃ events, w' = { w with events }

theorem Notes.of_respects {b : Build α} (h : ∀ {R}, Sources R → Respects R b) : Notes b :=
  exists_events h

theorem Notes.bind {b : Build α} {k : α → Build β} (h : Notes b)
    (hk : ∀ a, NotesOrSucceeds (k a)) : NotesOrSucceeds (b >>= k) := by
  intro w f w' hout
  obtain ⟨events, hnoted⟩ := h w
  rw [outcome_bind] at hout
  rcases hb : b.outcome w with ⟨g | a, v⟩ <;> rw [hb] at hnoted hout <;>
    obtain rfl : v = { w with events } := hnoted
  · exact ⟨events, (congrArg Prod.snd hout).symm⟩
  · obtain ⟨events', rfl⟩ := hk a _ f w' hout
    exact ⟨events', rfl⟩

/-- Nothing is refused once the middleware of a new composer has been composed. -/
theorem notesOrSucceeds_composerOf (mw : List Middleware) {k : Nat → Build β}
    (hk : ∀ id w, ∃ a w', (k id).outcome w = (.ok a, w')) :
    NotesOrSucceeds (composerOf mw >>= k) := by
  intro w f w' hout
  obtain ⟨events, hcompose⟩ := exists_events_compose mw w
  rw [outcome_bind, outcome_composerOf] at hout
  rcases hc : (compose mw).outcome w with ⟨g | l, v⟩ <;> rw [hc] at hcompose hout
  · exact ⟨events, (congrArg Prod.snd hout).symm.trans hcompose⟩
  · obtain ⟨a, u, hu⟩ := hk v.composers.length (v.addComposer { chain := l })
    cases hu.symm.trans hout

theorem notesOrSucceeds_use (id : Nat) (mw : List Middleware) : NotesOrSucceeds (use id mw) :=
  notesOrSucceeds_composerOf mw fun _ _ => ⟨_, _, rfl⟩

theorem notesOrSucceeds_filter (id : Nat) (p : Probe Condition) (negated : Bool)
    (mw : List Middleware) : NotesOrSucceeds (filter id p negated mw) :=
  notesOrSucceeds_composerOf mw fun _ _ => ⟨_, _, rfl⟩

theorem notesOrSucceeds_fork (id : Nat) (mw : List Middleware) : NotesOrSucceeds (fork id mw) :=
  notesOrSucceeds_composerOf mw fun _ _ => ⟨_, _, rfl⟩

theorem notesOrSucceeds_boundary (id : Nat) (handler : Script) (mw : List Middleware) :
    NotesOrSucceeds (boundary id handler mw) :=
  notesOrSucceeds_composerOf mw fun _ _ => ⟨_, _, rfl⟩

/-- A call that registers a listener and fails changes at most what a bot observes. -/
theorem exists_of_listen_error {id : Nat} {l : Listener} {mw : List Middleware}
    (h : (listen id l mw).outcome w = (.error f, w')) :
    ∃ kinds events, w' = { w.modifyBot id (observing kinds) with events } := by
  rcases hbot : w.bot? id with _ | b
  · rw [outcome_listen_of_no_bot hbot] at h
    have hplace : NotesOrSucceeds (placeListener id l mw) :=
      (Notes.of_respects fun _ => respects_ofExcept l.condition).bind fun _ =>
        notesOrSucceeds_filter id _ false mw
    obtain ⟨events, rfl⟩ := hplace w f w' h
    exact ⟨[], events, by rw [modifyBot_observing_nil]⟩
  · exact ⟨l.kinds, exists_events_of_listen_error (by rw [hbot]; rfl) h⟩

theorem notes_buildAll (es : List Expr) : Notes (buildAll es) :=
  .of_respects fun hR => respects_buildAll hR es

theorem notes_probe (p : Probe Listener) : Notes p.build := .of_respects fun _ => respects_probe p

/-- A registration that is refused changes at most what a bot observes, and notes at most which
containers were asked. -/
theorem exists_of_register_error {id : Nat} {r : Registration}
    (h : (register id r).outcome w = (.error f, w')) :
    ∃ kinds events, w' = { w.modifyBot id (observing kinds) with events } := by
  have hnoted : NotesOrSucceeds (register id r) →
      ∃ kinds events, w' = { w.modifyBot id (observing kinds) with events } := by
    intro hr
    obtain ⟨events, rfl⟩ := hr w f w' h
    exact ⟨[], events, by rw [modifyBot_observing_nil]⟩
  cases r with
  | use mw => exact hnoted ((notes_buildAll mw).bind (notesOrSucceeds_use id))
  | fork mw => exact hnoted ((notes_buildAll mw).bind (notesOrSucceeds_fork id))
  | filter p mw | drop p mw =>
    exact hnoted ((notes_buildAll mw).bind fun mw => (notes_probe p).bind fun p =>
      notesOrSucceeds_filter id p _ mw)
  | branch p yes no =>
    exact hnoted ((notes_probe p).bind fun p =>
      (Notes.of_respects fun hR => respects_spec hR yes).bind fun yes =>
        (Notes.of_respects fun hR => respects_spec hR no).bind fun no => notesOrSucceeds_use id _)
  | lazily factory table default =>
    exact hnoted ((notes_probe factory).bind fun p => notesOrSucceeds_use id _)
  | route router handlers fallback =>
    exact hnoted ((notes_probe router).bind fun p =>
      (Notes.of_respects fun hR => respects_handlersOf hR handlers []).bind fun handlers =>
        (Notes.of_respects fun hR => respects_buildChoice hR fallback).bind fun mw =>
          notesOrSucceeds_use id _)
  | boundary actions plain mw =>
    exact hnoted ((notes_buildAll mw).bind (notesOrSucceeds_boundary id { actions, plain }))
  | listen l mw =>
    rw [register, outcome_bind] at h
    obtain ⟨events, hbuild⟩ := notes_buildAll mw w
    rcases hb : (buildAll mw).outcome w with ⟨g | items, v⟩ <;> rw [hb] at hbuild h <;>
      obtain rfl : v = { w with events } := hbuild
    · exact ⟨[], events, by rw [modifyBot_observing_nil]; exact (congrArg Prod.snd h).symm⟩
    · obtain ⟨kinds, events', rfl⟩ := exists_of_listen_error h
      exact ⟨kinds, events', rfl⟩

end Build

/-! ## What comes later -/

variable {w w' : World}

theorem BotState.Alike.symm {b b' : BotState} (h : b.Alike b') : b'.Alike b :=
  ⟨h.identity.symm, h.fetch.symm, h.contextThrows.symm, h.allowed.symm, h.handler.symm⟩

theorem rel_symm {α : Type} {S : α → α → Prop} (hS : ∀ {a a'}, S a a' → S a' a) {o o' : Option α}
    (h : Option.Rel S o o') : Option.Rel S o' o := by
  cases h with
  | none => exact .none
  | some h => exact .some (hS h)

theorem rel_imp {α : Type} {S T : α → α → Prop} (hS : ∀ {a a'}, S a a' → T a a') {o o' : Option α}
    (h : Option.Rel S o o') : Option.Rel T o o' := by
  cases h with
  | none => exact .none
  | some h => exact .some (hS h)

/-- Composers with the same chain that differ at most in the update kinds that they observe. -/
structure Composer.Alike (c c' : Composer) : Prop where
  chain : c'.chain = c.chain
  bot : Option.Rel BotState.Alike c.bot c'.bot

theorem Composer.Alike.refl (c : Composer) : c.Alike c := by
  refine ⟨rfl, ?_⟩
  rcases c.bot with _ | b
  · exact .none
  · exact .some (.refl b)

/-- States that differ at most in the update kinds that bots observe, and in what was noted and
logged so far. -/
structure World.Alike (w w' : World) : Prop where
  lengths : w'.composers.length = w.composers.length
  composers : ∀ i : Nat, Option.Rel Composer.Alike w.composers[i]? w'.composers[i]?
  registers : w'.registers = w.registers
  client : w'.client = w.client
  me : w'.me = w.me
  contexts : w'.contexts = w.contexts

theorem World.Alike.symm (h : w.Alike w') : w'.Alike w where
  lengths := h.lengths.symm
  composers i := rel_symm (fun hc => ⟨hc.chain.symm, rel_symm BotState.Alike.symm hc.bot⟩)
    (h.composers i)
  registers := h.registers.symm
  client := h.client.symm
  me := h.me.symm
  contexts := h.contexts.symm

theorem World.alike_modifyBot (w : World) (id : Nat) {f : BotState → BotState}
    (hf : ∀ b : BotState, b.Alike (f b)) : w.Alike (w.modifyBot id f) where
  lengths := List.length_modify ..
  composers i := by
    rw [World.modifyBot, World.modifyComposer, List.getElem?_modify]
    rcases w.composers[i]? with _ | c
    · exact .none
    · refine .some ?_
      dsimp only
      split
      · refine ⟨rfl, ?_⟩
        rcases c.bot with _ | b
        · exact .none
        · exact .some (hf b)
      · exact .refl c
  registers := rfl
  client := rfl
  me := rfl
  contexts := rfl

/-- Two states with the same composers, as variants. -/
def Variants.plain : Variants := { shared := 0 }

theorem paired_zero (i : Nat) : Paired 0 0 i i := ⟨i, (Nat.zero_add i).symm, (Nat.zero_add i).symm⟩

theorem Variants.composers_plain (i : Nat) : plain.Composers i i := .inr (paired_zero i)

theorem Variants.eq_of_composers_plain {i i' : Nat} (h : plain.Composers i i') : i' = i := by
  rcases h with ⟨-, h⟩ | ⟨k, rfl, rfl⟩
  · exact h
  · rfl

theorem Variants.faithful_plain (R : Numbers → World → World → Prop) : plain.Faithful R :=
  fun h => h.elim

theorem Composer.Alike.same {c c' : Composer} (h : c.Alike c') : Variants.plain.Same c c' := by
  refine ⟨?_, h.bot⟩
  rw [h.chain]
  exact .same (c.chain.same_self fun id _ => Variants.composers_plain id)

/-- States that are alike look the same at the start of a command. -/
theorem World.Alike.exact (h : w.Alike w') : Variants.plain.Exact {} w.fresh w'.fresh where
  stores :=
    { composers := fun {i i'} hi => by
        obtain rfl := Variants.eq_of_composers_plain hi
        exact rel_imp Composer.Alike.same (h.composers i')
      lengths := h.lengths ▸ paired_zero _
      left := nofun
      right := nofun
      registers := by
        change List.Forall₂ _ w.registers w'.registers
        rw [h.registers]
        exact List.forall₂_same.mpr fun r _ =>
          ⟨rfl, r.2.same_self fun id _ => Variants.composers_plain id⟩
      me := h.me }
  client := h.client
  contexts := h.contexts
  marks := .nil _ _ _
  events := rfl
  notices := rfl

/-- Whatever is registered and dispatched, states that are alike respond the same. -/
theorem World.Alike.responds (h : w.Alike w') {cs : List Command}
    {rs : List (Report × List Context)} (hrs : Responds (fun _ => True) w cs rs) :
    Responds (fun _ => True) w' cs rs :=
  h.exact.responds (Variants.faithful_plain _) (fun _ => id) hrs

/-- A registration that is refused goes unnoticed: but for update kinds that a bot observes and for
what was noted, the state is the one before the call, and whatever is registered and dispatched
later, whichever composers have names by then, gets the same responses as if there had been no
call. -/
theorem refused_registration_unnoticed {id : Nat} {r : Registration} {f : Fault}
    (h : (Build.register id r).outcome w = (.error f, w')) :
    (∃ kinds events, w' = { w.modifyBot id (Build.observing kinds) with events }) ∧
    ∀ registers cs rs, Responds (fun _ => True) { w' with registers } cs rs ↔
      Responds (fun _ => True) { w with registers } cs rs := by
  have hstate := Build.exists_of_register_error h
  refine ⟨hstate, fun registers cs rs => ?_⟩
  obtain ⟨kinds, events, rfl⟩ := hstate
  have hobserving : ∀ b : BotState, b.Alike (Build.observing kinds b) :=
    fun _ => ⟨rfl, rfl, rfl, rfl, rfl⟩
  have halike : World.Alike { w with registers }
      { w.modifyBot id (Build.observing kinds) with events, registers } :=
    { World.alike_modifyBot { w with registers } id hobserving with }
  exact ⟨halike.symm.responds, halike.responds⟩

/-- A bot with a function that notes that an update has come. -/
def listeningWorld : World :=
  { client := none
    me := default
    composers := [{
      chain := .script { actions := [.note (.str "seen"), .next], plain := false }
      bot := some { identity := some default, observed := ["message"] } }]
    registers := [("bot", .composer 0)] }

/-- Polls are observed after the refused call, and the next update is handled as before. -/
theorem refused_registration_unnoticed_poll :
    ((Build.register 0 (.listen (.filter (.str "poll")) [.value (.int 5)])).outcome
      listeningWorld).1 = .error (.notMiddleware "int") ∧
    ((Build.register 0 (.listen (.filter (.str "poll")) [.value (.int 5)])).outcome
      listeningWorld).2.observed 0 = ["message", "poll"] ∧
    ∃ answer notices contexts, Responds (fun _ => True)
      { ((Build.register 0 (.listen (.filter (.str "poll")) [.value (.int 5)])).outcome
        listeningWorld).2 with registers := listeningWorld.registers }
      [.dispatch "bot" (.obj [("update_id", .int 7)])]
      [({ answer, events := [.note (.str "seen")], notices }, contexts)] := by
  have herror : ((Build.register 0 (.listen (.filter (.str "poll")) [.value (.int 5)])).outcome
      listeningWorld).1 = .error (.notMiddleware "int") := by cbv
  let m := Machine.ofRoots listeningWorld [Bot.handleUpdate 0 (.obj [("update_id", .int 7)])]
  have hend : Machine.EndsWith m (m.run 60).world none := ⟨60, .ok (.int 0), rfl, rfl, rfl, rfl⟩
  have hbefore : Responds (fun _ => True) listeningWorld
      [.dispatch "bot" (.obj [("update_id", .int 7)])] _ :=
    .cons (Command.answers_dispatch rfl ⟨hend, fun _ _ => trivial⟩) (.nil _)
  exact ⟨herror, by cbv, _, _, _,
    ((refused_registration_unnoticed (Prod.ext herror rfl)).2 _ _ _).mpr hbefore⟩

end UpdateDispatch
