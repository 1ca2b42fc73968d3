import UpdateDispatch.Scenario
import UpdateDispatch.Proofs.Filter.Kinds
import UpdateDispatch.Proofs.Dispatch.Observation

/-!
# Listeners for kinds that are not allowed

The kinds that a bot observes for a filter come from the texts of its paths, and the filter itself
is a tree of the paths. Both are the kinds of the same paths (`observedKinds_of_matchFilter`), so
they are sound and tight. After any calls that register listeners on a bot, the bot reports exactly
the kinds of these listeners that are not allowed (`unlistened_kinds_reported`).
-/

namespace UpdateDispatch

/-! ## The kinds of an accepted filter -/

namespace Filter

theorem eq_of_asKey {v key : Json} (h : v.asKey = .ok key) : key = v := by
  unfold Json.asKey at h
  split at h <;> cases h
  rfl

theorem eq_of_mapM_asKey {vs keys : List Json} (h : vs.mapM Json.asKey = .ok keys) : keys = vs := by
  induction vs generalizing keys with
  | nil => exact (Except.ok.inj h).symm
  | cons v rest ih =>
    rw [List.mapM_cons] at h
    obtain ⟨key, hkey, h⟩ := exists_of_bind_eq_ok h
    obtain ⟨others, hothers, h⟩ := exists_of_bind_eq_ok h
    rw [← Except.ok.inj h, eq_of_asKey hkey, ih hothers]

/-- An argument that may be looked up has the same queries when it is expanded. -/
theorem queries_of_cacheKey {argument : Json} {qs : List String}
    (h : cacheKey argument = .ok qs) : queries argument = .ok qs := by
  obtain ⟨vs, hlisted, h⟩ := exists_of_bind_eq_ok h
  obtain ⟨keys, hkeys, htexts⟩ := exists_of_bind_eq_ok h
  rw [eq_of_mapM_asKey hkeys] at htexts
  unfold queries
  rw [hlisted]
  exact htexts

/-- A filter that is accepted is a tree of the paths of its queries. -/
theorem exists_queries_of_matchFilter {argument : Json} {p : Predicate}
    (h : matchFilter argument = .ok p) : ∃ qs, queries argument = .ok qs ∧
      (∀ q ∈ qs, denoted q ≠ []) ∧ p = Predicate.ofPaths (qs.flatMap denoted) := by
  obtain ⟨qs, hkey, hcompile⟩ := exists_of_bind_eq_ok h
  obtain ⟨-, hdenoted, hp⟩ := compileQueries_eq_ok_iff.mp hcompile
  exact ⟨qs, queries_of_cacheKey hkey, hdenoted, hp⟩

end Filter

open UpdateDispatch.Filter in
/-- A bot notes the kinds of the paths that the filter is made of. -/
theorem observedKinds_of_matchFilter {argument : Json} {p : Predicate}
    (h : matchFilter argument = .ok p) : ∃ qs, p = Predicate.ofPaths (qs.flatMap denoted) ∧
      Build.observedKinds (.filter argument) = .ok (denotedKinds qs) := by
  obtain ⟨qs, hqueries, hdenoted, hp⟩ := exists_queries_of_matchFilter h
  refine ⟨qs, hp, ?_⟩
  change (do
    let paths ← expand (← queries argument)
    .ok (paths.map kindOf)) = _
  rw [hqueries]
  change (do
    let paths ← expand qs
    .ok (paths.map kindOf)) = _
  rw [expand_of_denoted hdenoted, ← map_kindOf_texts]
  rfl

theorem Listener.kinds_of_observedKinds {l : Listener} {kinds : List String}
    (h : Build.observedKinds l = .ok kinds) : l.kinds = kinds := by
  unfold Listener.kinds
  rw [h]

/-! ## Sequences of calls -/

/-- The state after listeners were registered on a composer, call by call. A call that fails does
not stop the others. -/
def World.listened (id : Nat) (calls : List (Listener × List Middleware)) (w : World) : World :=
  calls.foldl (fun w call => ((Build.listen id call.1 call.2).outcome w).2) w

namespace World

variable {id : Nat} {w : World}

theorem registers_listened (calls : List (Listener × List Middleware)) :
    (w.listened id calls).registers = w.registers := by
  induction calls generalizing w with
  | nil => rfl
  | cons call rest ih => exact ih.trans (Build.registers_listen id call.1 call.2 w)

/-- What a bot observes after a sequence of calls are the kinds of all their listeners. -/
theorem bot?_listened {b : BotState} (hbot : w.bot? id = some b)
    (calls : List (Listener × List Middleware)) :
    ∃ b', (w.listened id calls).bot? id = some b' ∧ b'.allowed = b.allowed ∧
      ∀ kind, kind ∈ b'.observed ↔ kind ∈ b.observed ∨ ∃ call ∈ calls, kind ∈ call.1.kinds := by
  induction calls generalizing w b with
  | nil => exact ⟨b, hbot, rfl, by simp⟩
  | cons call rest ih =>
    have hlisten := Build.bot?_listen id call.1 call.2 w id
    rw [if_pos rfl, hbot] at hlisten
    obtain ⟨b', hb', hallowed, hobserved⟩ := ih hlisten
    refine ⟨b', hb', hallowed, fun kind => ?_⟩
    rw [hobserved, Build.observing, Build.mem_foldl_including, List.exists_mem_cons_iff, or_assoc]

end World

/-! ## Reports -/

theorem Build.outcome_composerNamed {w : World} {on : String} {id : Nat}
    (h : Named.find? on w.registers = some (.composer id)) :
    (Build.composerNamed on).outcome w = (.ok id, w) := by
  have hnamed : (Build.named on).outcome w = (.ok (.composer id), w) := by
    unfold Build.named
    have hget : (get : Build World).outcome w = (.ok w, w) := rfl
    rw [outcome_bind, hget]
    simp only [h]
    rfl
  unfold Build.composerNamed
  rw [outcome_bind, hnamed]
  rfl

/-- A bot reports the kinds that it observes and that are not allowed, with one line in the log if
there are any. -/
theorem answer_checkAllowed {w : World} {on : String} {id : Nat} {b : BotState} {allowed : Json}
    {kinds : List String} (hon : Named.find? on w.registers = some (.composer id))
    (hbot : w.bot? id = some b) (hkinds : Bot.unlistened b allowed = .ok kinds) :
    (Command.checkAllowed on allowed).answer w =
      (.ok (.kinds kinds), if kinds = [] then w else w.log (.unlistened kinds)) := by
  have hnamed : (Command.botNamed on "validate_allowed_updates").outcome w = (.ok (id, b), w) := by
    unfold Command.botNamed
    have hget : (get : Build World).outcome w = (.ok w, w) := rfl
    rw [Build.outcome_bind, Build.outcome_composerNamed hon]
    simp only [Build.outcome_bind, hget, hbot]
    rfl
  change (do
    let x ← Command.botNamed on "validate_allowed_updates"
    Command.warned (← Build.ofExcept (Bot.unlistened x.2 allowed)) : Build Answer).outcome w = _
  rw [Build.outcome_bind, hnamed]
  change (do
    Command.warned (← Build.ofExcept (Bot.unlistened b allowed)) : Build Answer).outcome w = _
  rw [hkinds]
  rcases kinds with _ | ⟨kind, rest⟩ <;> rfl

open UpdateDispatch.Filter in
/-- The kinds that a bot notes for an accepted filter are sound and tight: an update that passes has
one of them, and for each of them an update with that kind alone passes, for every identity whose
number equals itself, as whole numbers do. So after any calls that register listeners on a new bot,
the bot reports exactly the kinds of their listeners that are not allowed, in order and each of them
once, with one line in the log, and nothing if all of them are allowed. -/
theorem unlistened_kinds_reported :
    (∀ (query : Json) (p : Predicate), matchFilter query = .ok p →
      (∀ w id b mw, w.bot? id = some b →
        ((Build.listen id (.filter query) mw).outcome w).2.bot? id =
          some (Build.observing (Listener.filter query).kinds b)) ∧
      (∀ c : Context, c.passes p = true →
        ∃ kind ∈ (Listener.filter query).kinds, (c.update.field kind).isNull = false) ∧
      ∀ kind ∈ (Listener.filter query).kinds, ∀ me : Identity, me.id.same me.id = true →
        ∃ v, ({ update := .obj [(kind, v)], me } : Context).passes p = true) ∧
    ∀ (w : World) (id : Nat) (b : BotState) (calls : List (Listener × List Middleware))
      (on : String) (allowed : Json) (items : List Json),
      w.bot? id = some b → b.observed = [] →
      Named.find? on w.registers = some (.composer id) → Bot.allowedItems b allowed = .ok items →
      ∃ kinds, (Command.checkAllowed on allowed).answer (w.listened id calls) =
          (.ok (.kinds kinds), if kinds = [] then w.listened id calls
            else (w.listened id calls).log (.unlistened kinds)) ∧
        (kinds = [] ↔ ∀ call ∈ calls, ∀ kind ∈ call.1.kinds, Json.str kind ∈ items) ∧
        kinds.Pairwise (· < ·) ∧
        ∀ kind, kind ∈ kinds ↔ (∃ call ∈ calls, kind ∈ call.1.kinds) ∧ Json.str kind ∉ items := by
  constructor
  · intro query p hquery
    obtain ⟨qs, rfl, hkinds⟩ := observedKinds_of_matchFilter hquery
    rw [Listener.kinds_of_observedKinds hkinds]
    refine ⟨fun w id b mw hbot => ?_, fun c => exists_kind_of_passes,
      fun kind hkind me hme => exists_update_of_kind hkind hme⟩
    rw [Build.bot?_listen, if_pos rfl, hbot, Listener.kinds_of_observedKinds hkinds]
    rfl
  · intro w id b calls on allowed items hbot hnew hon hitems
    obtain ⟨b', hbot', hallowed, hobserved⟩ := World.bot?_listened hbot calls
    have hitems' : Bot.allowedItems b' allowed = .ok items := by
      unfold Bot.allowedItems Bot.given at hitems ⊢
      rw [hallowed, hitems]
    obtain ⟨kinds, hkinds, hsorted, hmem⟩ := Bot.mem_unlistened hitems'
    have hreported : ∀ kind, kind ∈ kinds ↔
        (∃ call ∈ calls, kind ∈ call.1.kinds) ∧ Json.str kind ∉ items := fun kind => by
      rw [hmem, hobserved, hnew]
      simp
    refine ⟨kinds, answer_checkAllowed ((World.registers_listened calls).symm ▸ hon) hbot' hkinds,
      ?_, hsorted, hreported⟩
    rw [List.eq_nil_iff_forall_not_mem]
    constructor
    · intro hnone call hcall kind hkind
      by_contra hnot
      exact hnone kind ((hreported kind).mpr ⟨⟨call, hcall, hkind⟩, hnot⟩)
    · intro hall kind hkind
      obtain ⟨⟨call, hcall, hkind⟩, hnot⟩ := (hreported kind).mp hkind
      exact hnot (hall call hcall kind hkind)

/-- A new bot in a register. -/
def registeredBot : World :=
  { client := none
    me := default
    composers := [{ bot := some {} }]
    registers := [("b", .composer 0)] }

/-- Listeners for texts and for a reaction. -/
def textAndReaction : List (Listener × List Middleware) :=
  [(.filter (.str "msg:text"), []), (.reaction (.str "👍"), [])]

/-- With messages allowed, channel posts and reactions are reported. -/
theorem unlistened_kinds_reported_message :
    (∃ v, ({ update := .obj [("channel_post", v)], me := { id := .int 42 } } : Context).passes
      ⟨[("message", [("text", [])]), ("channel_post", [("text", [])])]⟩ = true) ∧
    ∃ kinds, (Command.checkAllowed "b" (.arr [.str "message"])).answer
        (registeredBot.listened 0 textAndReaction) =
          (.ok (.kinds kinds), (registeredBot.listened 0 textAndReaction).log (.unlistened kinds)) ∧
      kinds.Pairwise (· < ·) ∧
      ∀ kind, kind ∈ kinds ↔ kind = "channel_post" ∨ kind = "message_reaction" := by
  have hfilter : Filter.matchFilter (.str "msg:text") =
      .ok ⟨[("message", [("text", [])]), ("channel_post", [("text", [])])]⟩ := by cbv
  have htext : (Listener.filter (.str "msg:text")).kinds = ["message", "channel_post"] := by cbv
  have hreaction : (Listener.reaction (.str "👍")).kinds = ["message_reaction"] := rfl
  obtain ⟨-, -, htight⟩ := unlistened_kinds_reported.1 _ _ hfilter
  have hitems : Bot.allowedItems {} (.arr [.str "message"]) = .ok [.str "message"] :=
    Bot.allowedItems_names {} ["message"]
  obtain ⟨kinds, hanswer, hnone, hsorted, hmem⟩ := unlistened_kinds_reported.2 registeredBot 0 {}
    textAndReaction "b" (.arr [.str "message"]) _ rfl rfl rfl hitems
  have hkinds : ∀ kind, kind ∈ kinds ↔ kind = "channel_post" ∨ kind = "message_reaction" := by
    intro kind
    rw [hmem]
    simp only [textAndReaction, List.exists_mem_cons_iff, htext, hreaction]
    constructor
    · rintro ⟨h, hnot⟩
      simpa [or_assoc, show kind ≠ "message" by rintro rfl; simp at hnot] using h
    · rintro (rfl | rfl) <;> simp
  have hne : kinds ≠ [] := List.ne_nil_of_mem ((hkinds "channel_post").mpr (.inl rfl))
  rw [if_neg hne] at hanswer
  refine ⟨htight "channel_post" ?_ _ rfl, kinds, hanswer, hsorted, hkinds⟩
  rw [htext]
  decide

end UpdateDispatch
