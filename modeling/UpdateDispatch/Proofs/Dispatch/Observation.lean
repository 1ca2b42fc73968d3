import UpdateDispatch.Dispatch.Bot
import UpdateDispatch.Proofs.Dispatch.Registrations
import UpdateDispatch.Proofs.Json.Reading

/-!
# What a bot observes

A bot takes note of the update kinds that a listener waits for (`Listener.kinds`) as the first thing
that it does when the listener is registered on it (`Build.bot?_listen`). All that follows, the
condition of the listener and its middleware, may still be refused, and nothing takes the kinds back
then: a call that fails leaves the bot as it was exactly if the bot observed these kinds before
(`failed_listen_iff`).
-/

namespace UpdateDispatch

/-- The update kinds that a bot takes note of for a listener: none if its query is refused. -/
def Listener.kinds (l : Listener) : List String :=
  match Build.observedKinds l with
  | .ok kinds => kinds
  | .error _ => []

/-- The update kinds that a bot observes; what is no bot observes none. -/
def World.observed (w : World) (id : Nat) : List String :=
  ((w.bot? id).map BotState.observed).getD []

/-- What a bot answers when it is asked for the kinds that are observed and not allowed. -/
def World.unlistened (w : World) (id : Nat) (allowed : Json) :
    Option (Except Fault (List String)) :=
  (w.bot? id).map (Bot.unlistened · allowed)

/-! ## Sorted texts -/

namespace Settings

theorem mem_insertSorted {s t : String} {texts : List String} :
    t ∈ insertSorted s texts ↔ t = s ∨ t ∈ texts := by
  induction texts with
  | nil => rw [insertSorted, List.mem_singleton]; simp
  | cons u rest ih =>
    rw [insertSorted]
    split_ifs with heq hlt
    · subst heq
      simp
    · exact List.mem_cons
    · rw [List.mem_cons, ih, List.mem_cons, or_left_comm]

theorem mem_sorted {t : String} {texts : List String} : t ∈ sorted texts ↔ t ∈ texts := by
  induction texts with
  | nil => rfl
  | cons s rest ih =>
    rw [List.mem_cons, ← ih]
    exact mem_insertSorted

theorem pairwise_insertSorted (s : String) {texts : List String} (h : texts.Pairwise (· < ·)) :
    (insertSorted s texts).Pairwise (· < ·) := by
  induction texts with
  | nil => exact List.pairwise_singleton _ s
  | cons t rest ih =>
    obtain ⟨ht, hrest⟩ := List.pairwise_cons.mp h
    rw [insertSorted]
    split_ifs with heq hlt
    · exact h
    · exact List.pairwise_cons.mpr ⟨List.forall_mem_cons.mpr
        ⟨hlt, fun u hu => lt_trans hlt (ht u hu)⟩, h⟩
    · refine List.pairwise_cons.mpr ⟨fun u hu => ?_, ih hrest⟩
      rcases mem_insertSorted.mp hu with rfl | hu
      · exact lt_of_le_of_ne (not_lt.mp hlt) (Ne.symm heq)
      · exact ht u hu

/-- Sorted texts come in order, and none comes twice. -/
theorem pairwise_sorted (texts : List String) : (sorted texts).Pairwise (· < ·) := by
  induction texts with
  | nil => exact List.Pairwise.nil
  | cons s rest ih => exact pairwise_insertSorted s ih

end Settings

/-! ## Allowed kinds -/

namespace Bot

/-- The list of allowed kinds that counts for a bot: the one that is given, else that of the bot,
else the kinds that are delivered by default. -/
def given (b : BotState) (allowed : Json) : Json :=
  Json.firstPresent [allowed, b.allowed, .arr (Filter.defaultKinds.map .str)]

/-- The items of the list of allowed kinds that counts for a bot. -/
def allowedItems (b : BotState) (allowed : Json) : Except Fault (List Json) := do
  (← (given b allowed).items).mapM Json.asKey

theorem unlistened_eq (b : BotState) (allowed : Json) :
    unlistened b allowed = (allowedItems b allowed).map fun items =>
      Settings.sorted (b.observed.filter fun kind => !(Json.str kind).isIn items) := by
  change (do
    let kinds ← (← (given b allowed).items).mapM Json.asKey
    .ok (Settings.sorted (b.observed.filter fun kind => !(Json.str kind).isIn kinds))) = _
  unfold allowedItems
  rcases (given b allowed).items with f | vs
  · rfl
  · change (do
      let kinds ← vs.mapM Json.asKey
      .ok (Settings.sorted (b.observed.filter fun kind => !(Json.str kind).isIn kinds))) =
        (vs.mapM Json.asKey).map _
    rcases vs.mapM Json.asKey with f | items <;> rfl

/-- The kinds that are observed and not allowed, in order and each of them once. -/
theorem mem_unlistened {b : BotState} {allowed : Json} {items : List Json}
    (h : allowedItems b allowed = .ok items) :
    ∃ kinds, unlistened b allowed = .ok kinds ∧ kinds.Pairwise (· < ·) ∧
      ∀ kind, kind ∈ kinds ↔ kind ∈ b.observed ∧ Json.str kind ∉ items := by
  refine ⟨_, by rw [unlistened_eq, h]; rfl, Settings.pairwise_sorted _, fun kind => ?_⟩
  rw [Settings.mem_sorted, List.mem_filter, Bool.not_eq_true', ← Bool.not_eq_true,
    Json.isIn_str_iff]

theorem mapM_asKey_str (names : List String) :
    (names.map Json.str).mapM Json.asKey = .ok (names.map Json.str) := by
  induction names with
  | nil => rfl
  | cons s rest ih =>
    rw [List.map_cons, List.mapM_cons, ih]
    rfl

theorem allowedItems_of_given {b : BotState} {allowed : Json} {names : List String}
    (h : given b allowed = .arr (names.map .str)) :
    allowedItems b allowed = .ok (names.map .str) := by
  unfold allowedItems
  rw [h]
  exact mapM_asKey_str names

/-- A list of kinds that is given comes before the bot's own. -/
theorem allowedItems_names (b : BotState) (names : List String) :
    allowedItems b (.arr (names.map .str)) = .ok (names.map .str) := allowedItems_of_given rfl

end Bot

/-! ## States of bots -/

namespace World

variable (w : World) (id : Nat)

theorem bot?_addComposer {c : Composer} (hc : c.bot = none) :
    (w.addComposer c).bot? id = w.bot? id := by
  unfold bot? addComposer
  rw [List.getElem?_append]
  split
  · rfl
  · next hid =>
    rw [List.getElem?_eq_none (not_lt.mp hid)]
    rcases id - w.composers.length with _ | _
    · exact hc
    · rfl

theorem bot?_append (other : Nat) (l : Link) : (w.append other l).bot? id = w.bot? id := by
  unfold bot? append modifyComposer
  rw [List.getElem?_modify]
  split <;> rcases w.composers[id]? with _ | _ <;> rfl

theorem bot?_modifyBot_eq_ite (other : Nat) (f : BotState → BotState) :
    (w.modifyBot other f).bot? id = if other = id then (w.bot? id).map f else w.bot? id := by
  unfold bot? modifyBot modifyComposer
  rw [List.getElem?_modify]
  split <;> rcases w.composers[id]? with _ | _ <;> rfl

end World

namespace Build

variable {α β : Type}

theorem mem_including {texts : List String} {s t : String} :
    t ∈ including texts s ↔ t ∈ texts ∨ t = s := by
  unfold including
  split
  · next h =>
    rw [List.contains_iff_mem] at h
    exact ⟨.inl, fun ht => ht.elim id fun heq => heq ▸ h⟩
  · simp

theorem mem_foldl_including {kinds texts : List String} {t : String} :
    t ∈ kinds.foldl including texts ↔ t ∈ texts ∨ t ∈ kinds := by
  induction kinds generalizing texts with
  | nil => simp
  | cons s rest ih => rw [List.foldl_cons, ih, mem_including, List.mem_cons, or_assoc]

/-- Nothing changes if all kinds were noted before. -/
theorem foldl_including_eq_self_iff {kinds texts : List String} :
    kinds.foldl including texts = texts ↔ ∀ kind ∈ kinds, kind ∈ texts := by
  constructor
  · intro h kind hkind
    rw [← h]
    exact mem_foldl_including.mpr (.inr hkind)
  · intro h
    induction kinds with
    | nil => rfl
    | cons s rest ih =>
      obtain ⟨hs, hrest⟩ := List.forall_mem_cons.mp h
      have hsame : including texts s = texts := if_pos (List.contains_iff_mem.mpr hs)
      rw [List.foldl_cons, hsame, ih hrest]

/-! ## What combinators do -/

/-- The relation of a state to itself, while it is `w₀` but for what was noted. -/
def Noting (w₀ w w' : World) : Prop := w' = w ∧ ∃ events, w = { w₀ with events }

theorem sources_noting (w₀ : World) : Sources (Noting w₀) where
  registers h := by rw [h.1]
  accessed h name := by
    obtain ⟨rfl, events, rfl⟩ := h
    exact ⟨rfl, _, rfl⟩

/-- To build middleware is at most to note which containers are asked. -/
theorem exists_events {b : Build α} (h : ∀ {R}, Sources R → Respects R b) (w : World) :
    ∃ events, (b.outcome w).2 = { w with events } :=
  (h (sources_noting w) w w ⟨rfl, w.events, rfl⟩).2.2

theorem exists_events_compose (mw : List Middleware) (w : World) :
    ∃ events, ((compose mw).outcome w).2 = { w with events } :=
  exists_events (fun hR => respects_compose hR mw) w

theorem outcome_composerOf (mw : List Middleware) (w : World) :
    (composerOf mw).outcome w =
      match (compose mw).outcome w with
      | (.ok l, w') => (.ok w'.composers.length, w'.addComposer { chain := l })
      | (.error f, w') => (.error f, w') := by
  unfold composerOf
  rw [outcome_bind]
  rcases (compose mw).outcome w with ⟨_ | l, w'⟩ <;> rfl

/-- The chain of the composer that `filter` appends for its middleware. -/
def gate (p : Probe Condition) (negated : Bool) (child : Nat) : Link :=
  .lazily (.branch p negated [.composer child] [.link .pass])

/-- A filter is refused if its middleware is. Otherwise two composers are new: one for the
middleware and one for the choice, and the latter is appended. -/
theorem outcome_filter (id : Nat) (p : Probe Condition) (negated : Bool) (mw : List Middleware)
    (w : World) :
    (filter id p negated mw).outcome w =
      match (compose mw).outcome w with
      | (.ok l, w') =>
        (.ok w'.composers.length,
          ((w'.addComposer { chain := l }).addComposer
              { chain := gate p negated w'.composers.length }).append id
            (.composer (w'.addComposer { chain := l }).composers.length))
      | (.error f, w') => (.error f, w') := by
  unfold filter
  rw [outcome_bind, outcome_composerOf]
  rcases (compose mw).outcome w with ⟨_ | l, w'⟩ <;> rfl

theorem bot?_filter (id : Nat) (p : Probe Condition) (negated : Bool) (mw : List Middleware)
    (w : World) (other : Nat) :
    ((filter id p negated mw).outcome w).2.bot? other = w.bot? other := by
  obtain ⟨events, hcompose⟩ := exists_events_compose mw w
  rw [outcome_filter]
  rcases hc : (compose mw).outcome w with ⟨f | l, w'⟩ <;> rw [hc] at hcompose <;>
    obtain rfl : w' = { w with events } := hcompose
  · rfl
  · rw [World.bot?_append, World.bot?_addComposer _ _ rfl, World.bot?_addComposer _ _ rfl]
    rfl

theorem registers_filter (id : Nat) (p : Probe Condition) (negated : Bool) (mw : List Middleware)
    (w : World) : ((filter id p negated mw).outcome w).2.registers = w.registers := by
  obtain ⟨events, hcompose⟩ := exists_events_compose mw w
  rw [outcome_filter]
  rcases hc : (compose mw).outcome w with ⟨f | l, w'⟩ <;> rw [hc] at hcompose <;>
    obtain rfl : w' = { w with events } := hcompose <;> rfl

theorem exists_events_of_filter_error {id : Nat} {p : Probe Condition} {negated : Bool}
    {mw : List Middleware} {w w' : World} {f : Fault}
    (h : (filter id p negated mw).outcome w = (.error f, w')) :
    ∃ events, w' = { w with events } := by
  obtain ⟨events, hcompose⟩ := exists_events_compose mw w
  rw [outcome_filter] at h
  rcases hc : (compose mw).outcome w with ⟨g | l, v⟩ <;> rw [hc] at hcompose h
  · exact ⟨events, (congrArg Prod.snd h).symm.trans hcompose⟩
  · cases congrArg Prod.fst h

/-! ## What listening does -/

/-- What is left to do once a bot has taken note of the kinds of a listener. -/
def placeListener (id : Nat) (l : Listener) (mw : List Middleware) : Build Nat := do
  let condition ← ofExcept l.condition
  filter id { source := .condition condition } false mw

theorem modifyBot_observing_nil (w : World) (id : Nat) : w.modifyBot id (observing []) = w := by
  have hsame : (fun c : Composer => { c with bot := c.bot.map (observing []) }) = fun c => c := by
    funext c
    rcases c with ⟨chain, _ | b⟩ <;> rfl
  unfold World.modifyBot World.modifyComposer
  rw [hsame]
  exact congrArg (fun composers => { w with composers }) (List.modify_id id w.composers)

/-- A bot takes note of the kinds before anything else. If the query is refused there are none, and
nothing else is done. -/
theorem outcome_listen_of_bot {w : World} {id : Nat} (hbot : (w.bot? id).isSome = true)
    (l : Listener) (mw : List Middleware) :
    (listen id l mw).outcome w =
      match observedKinds l with
      | .ok _ => (placeListener id l mw).outcome (w.modifyBot id (observing l.kinds))
      | .error f => (.error f, w.modifyBot id (observing l.kinds)) := by
  have hnoted : (listen id l mw).outcome w = (do
      let kinds ← ofExcept (observedKinds l)
      modify (World.modifyBot id (observing kinds))
      placeListener id l mw : Build Nat).outcome w := by
    unfold listen
    rw [outcome_bind]
    change (ite ((w.bot? id).isSome = true) _ _ : Build Nat).outcome w = _
    rw [if_pos hbot]
    rfl
  rw [hnoted]
  unfold Listener.kinds
  rcases observedKinds l with f | kinds
  · rw [modifyBot_observing_nil]
    rfl
  · rfl

theorem outcome_listen_of_no_bot {w : World} {id : Nat} (hbot : w.bot? id = none)
    (l : Listener) (mw : List Middleware) :
    (listen id l mw).outcome w = (placeListener id l mw).outcome w := by
  unfold listen
  rw [outcome_bind]
  change (ite ((w.bot? id).isSome = true) _ _ : Build Nat).outcome w = _
  rw [hbot]
  rfl

theorem bot?_placeListener (id : Nat) (l : Listener) (mw : List Middleware) (w : World)
    (other : Nat) : ((placeListener id l mw).outcome w).2.bot? other = w.bot? other := by
  unfold placeListener
  rcases l.condition with f | condition
  · rfl
  · exact bot?_filter id _ false mw w other

theorem registers_placeListener (id : Nat) (l : Listener) (mw : List Middleware) (w : World) :
    ((placeListener id l mw).outcome w).2.registers = w.registers := by
  unfold placeListener
  rcases l.condition with f | condition
  · rfl
  · exact registers_filter id _ false mw w

/-- A bot observes the kinds of every listener that is registered on it, whether or not the call
fails. No other bot is touched. -/
theorem bot?_listen (id : Nat) (l : Listener) (mw : List Middleware) (w : World) (other : Nat) :
    ((listen id l mw).outcome w).2.bot? other =
      if id = other then (w.bot? other).map (observing l.kinds) else w.bot? other := by
  rcases hbot : w.bot? id with _ | b
  · rw [outcome_listen_of_no_bot hbot, bot?_placeListener]
    split
    · next heq => rw [← heq, hbot]; rfl
    · rfl
  · have hmodified := w.bot?_modifyBot_eq_ite other id (observing l.kinds)
    rw [outcome_listen_of_bot (by rw [hbot]; rfl), ← hmodified]
    rcases observedKinds l with f | _
    · rfl
    · exact bot?_placeListener ..

theorem registers_listen (id : Nat) (l : Listener) (mw : List Middleware) (w : World) :
    ((listen id l mw).outcome w).2.registers = w.registers := by
  rcases hbot : w.bot? id with _ | b
  · rw [outcome_listen_of_no_bot hbot, registers_placeListener]
  · rw [outcome_listen_of_bot (by rw [hbot]; rfl)]
    rcases observedKinds l with f | _
    · rfl
    · exact registers_placeListener ..

/-- What is observed after the registration of a listener. -/
theorem mem_observed_listen (id : Nat) (l : Listener) (mw : List Middleware) (w : World)
    (other : Nat) (kind : String) :
    kind ∈ ((listen id l mw).outcome w).2.observed other ↔
      kind ∈ w.observed other ∨ id = other ∧ (w.bot? id).isSome = true ∧ kind ∈ l.kinds := by
  unfold World.observed
  rw [bot?_listen]
  by_cases hid : id = other
  · subst hid
    rcases w.bot? id with _ | b
    · simp
    · simp [observing, mem_foldl_including]
  · simp [hid]

/-- A call that fails changes nothing but what the bot observes. -/
theorem exists_events_of_listen_error {id : Nat} {l : Listener} {mw : List Middleware}
    {w w' : World} {f : Fault} (hbot : (w.bot? id).isSome = true)
    (h : (listen id l mw).outcome w = (.error f, w')) :
    ∃ events, w' = { w.modifyBot id (observing l.kinds) with events } := by
  rw [outcome_listen_of_bot hbot] at h
  rcases hkinds : observedKinds l with g | _ <;> rw [hkinds] at h
  · exact ⟨_, (congrArg Prod.snd h).symm⟩
  · unfold placeListener at h
    rcases hcondition : l.condition with g | condition <;> rw [hcondition] at h
    · exact ⟨_, (congrArg Prod.snd h).symm⟩
    · exact exists_events_of_filter_error h

end Build

/-! ## Calls that fail -/

/-- Bots that answer alike for every list of allowed kinds observe alike. -/
theorem Bot.observed_subset_of_unlistened {b b' : BotState}
    (h : ∀ allowed, unlistened b' allowed = unlistened b allowed) :
    ∀ kind ∈ b'.observed, kind ∈ b.observed := by
  intro kind hkind
  -- with what `b` observes as the allowed kinds, `b` has nothing to report
  obtain ⟨kinds, hkinds, -, hmem⟩ := mem_unlistened (allowedItems_names b b.observed)
  obtain ⟨kinds', hkinds', -, hmem'⟩ := mem_unlistened (allowedItems_names b' b.observed)
  obtain rfl : kinds' = kinds := by
    rw [h, hkinds] at hkinds'
    exact (Except.ok.inj hkinds').symm
  by_contra hnot
  have hreported : kind ∈ kinds' := (hmem' kind).mpr ⟨hkind, by simpa using hnot⟩
  exact hnot ((hmem kind).mp hreported).1

/-- A call that registers a listener on a bot and fails changes nothing but what the bot observes.
This stays as it was, and with it the answer for every list of allowed kinds, exactly if the bot
observes all kinds of the listener already. -/
theorem failed_listen_iff {w w' : World} {id : Nat} {b : BotState} {l : Listener}
    {mw : List Middleware} {f : Fault} (hbot : w.bot? id = some b)
    (h : (Build.listen id l mw).outcome w = (.error f, w')) :
    (∃ events, w' = { w.modifyBot id (Build.observing l.kinds) with events }) ∧
    (w'.observed id = w.observed id ↔ ∀ kind ∈ l.kinds, kind ∈ w.observed id) ∧
    ((∀ allowed, w'.unlistened id allowed = w.unlistened id allowed) ↔
      ∀ kind ∈ l.kinds, kind ∈ w.observed id) := by
  have hafter : w'.bot? id = some (Build.observing l.kinds b) := by
    have hlisten := Build.bot?_listen id l mw w id
    rwa [h, if_pos rfl, hbot] at hlisten
  unfold World.observed World.unlistened
  rw [hafter, hbot]
  simp only [Option.map_some, Option.getD_some, Option.some.injEq]
  refine ⟨Build.exists_events_of_listen_error (by rw [hbot]; rfl) h,
    Build.foldl_including_eq_self_iff, fun hsame kind hkind => ?_, fun hall allowed => ?_⟩
  · exact Bot.observed_subset_of_unlistened hsame kind
      (Build.mem_foldl_including.mpr (.inr hkind))
  · have hsame : Build.observing l.kinds b = b := by
      unfold Build.observing
      rw [Build.foldl_including_eq_self_iff.mpr hall]
    rw [hsame]

/-- A dispatcher with one bot, which observes messages. -/
def botWorld : World :=
  { client := none, me := default, composers := [{ bot := some { observed := ["message"] } }] }

/-- The call fails because of its middleware, and the bot observes messages as before. -/
theorem failed_listen_iff_message :
    ((Build.listen 0 (.filter (.str "message:text")) [.other (.int 5)]).outcome botWorld).1 =
      .error (.notMiddleware "int") ∧
    ((Build.listen 0 (.filter (.str "message:text")) [.other (.int 5)]).outcome
      botWorld).2.observed 0 = botWorld.observed 0 := by
  have herror : ((Build.listen 0 (.filter (.str "message:text")) [.other (.int 5)]).outcome
      botWorld).1 = .error (.notMiddleware "int") := by cbv
  have hkinds : (Listener.filter (.str "message:text")).kinds = ["message"] := by cbv
  refine ⟨herror, ((failed_listen_iff rfl (Prod.ext herror rfl)).2.1).mpr ?_⟩
  rw [hkinds]
  decide

/-- A bot goes on observing polls after a call that failed because of its middleware, and it reports
them when they are not allowed. -/
theorem kinds_of_failed_listen_stay :
    ((Build.listen 0 (.filter (.str "poll")) [.other (.int 5)]).outcome botWorld).1 =
      .error (.notMiddleware "int") ∧
    botWorld.observed 0 = ["message"] ∧
    ((Build.listen 0 (.filter (.str "poll")) [.other (.int 5)]).outcome botWorld).2.observed 0 =
      ["message", "poll"] ∧
    botWorld.unlistened 0 (.arr [.str "message"]) = some (.ok []) ∧
    ((Build.listen 0 (.filter (.str "poll")) [.other (.int 5)]).outcome botWorld).2.unlistened 0
      (.arr [.str "message"]) = some (.ok ["poll"]) := by
  refine ⟨by cbv, by cbv, by cbv, by cbv, by cbv⟩

end UpdateDispatch
