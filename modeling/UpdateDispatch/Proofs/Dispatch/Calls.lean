import UpdateDispatch.Proofs.Dispatch.Work

/-!
# Calls that share a request

What becomes of a call of `init`. Within its first turn it returns, comes to wait for the request
that is under way, or makes a request of its own (`Machine.Serving.returns`, `.joins`, `.requests`).
A call that waits ends as the request does (`Machine.Fate`), whoever is woken first and whatever is
assigned in the meantime.
-/

namespace UpdateDispatch

open Relation

namespace Machine

open Process UpdateDispatch.Bot

variable {id i t : Nat} {m m' s : Machine} {a b : Owner} {p q : Process} {o : Outcome} {c : Client}

/-! ## Waiting calls -/

/-- The call of a root, made with the client `c`, waits for the request `t`. -/
def Waits (id i t : Nat) (c : Client) (m : Machine) : Prop :=
  ∃ ws, m.tasks[t]? = some (.running ws) ∧ (.root i, afterFetch id c t) ∈ ws

/-- What has become of a call that has waited for the request `t`: it still waits, or the request
has ended and the call is about to go on, goes on, or has ended in the same way. -/
inductive Fate (id i t : Nat) (c : Client) (m : Machine) : Prop
  | waiting (h : Waits id i t c m)
  | woken {o : Outcome} (ht : m.tasks[t]? = some (.finished o))
      (hturn : .resume (.root i) (afterFetch id c t o) ∈ m.ready)
  | concluding {o : Outcome} {p : Process} (ht : m.tasks[t]? = some (.finished o))
      (hfocus : m.focus = some (.root i, p)) (hp : Concluding c id m.world t o p)
  | returned {o : Outcome} (ht : m.tasks[t]? = some (.finished o))
      (hroot : m.roots[i]? = some (some (callOutcome c o)))
      (hforgot : m.world.requestOf id ≠ some t)

/-- A request that has ended stays as it is. -/
theorem Moves.finished (h : Moves id m m') (ht : m.tasks[t]? = some (.finished o)) :
    m'.tasks[t]? = some (.finished o) := by
  cases h with
  | requests => exact List.getElem?_append_left (List.getElem?_eq_some_iff.mp ht).1 ▸ ht
  | waits _ hrun => exact getElem?_set_of_finished hrun _ ht
  | ends _ hrun => exact getElem?_set_of_finished hrun _ ht
  | _ => exact ht

/-- A request that has ended is not noted any more. -/
theorem Moves.forgotten (h : Moves id m m') (ht : m.tasks[t]? = some (.finished o))
    (hforgot : m.world.requestOf id ≠ some t) : m'.world.requestOf id ≠ some t := by
  cases h with
  | goesOn _ hproceeds =>
    intro hreq
    exact (hproceeds.request hreq).elim hforgot (not_inFlight ht)
  | _ => exact hforgot

theorem Fate.next_waiting (h : Waits id i t c m) (hmoves : Moves id m m') : Fate id i t c m' := by
  obtain ⟨ws, ht, hmem⟩ := h
  obtain ⟨hlt, -⟩ := List.getElem?_eq_some_iff.mp ht
  cases hmoves with
  | requests => exact .waiting ⟨ws, List.getElem?_append_left hlt ▸ ht, hmem⟩
  | @waits _ t' _ ws' hfocus ht' =>
    by_cases hne : t' = t
    · subst hne
      rw [ht] at ht'
      cases ht'
      exact .waiting ⟨_, List.getElem?_set_self hlt, List.mem_append_left _ hmem⟩
    · exact .waiting ⟨ws, (List.getElem?_set_ne hne).trans ht, hmem⟩
  | @ends t' o ws' hfocus ht' =>
    by_cases hne : t' = t
    · subst hne
      rw [ht] at ht'
      cases ht'
      exact .woken (List.getElem?_set_self hlt)
        (List.mem_append_right _ (List.mem_map.mpr ⟨_, hmem, rfl⟩))
    · exact .waiting ⟨ws, (List.getElem?_set_ne hne).trans ht, hmem⟩
  | _ => exact .waiting ⟨ws, ht, hmem⟩

theorem Fate.next_woken (ht : m.tasks[t]? = some (.finished o))
    (hturn : .resume (.root i) (afterFetch id c t o) ∈ m.ready) (hmoves : Moves id m m') :
    Fate id i t c m' := by
  have ht' := hmoves.finished ht
  cases hmoves with
  | turn hfocus hready hp =>
    rw [hready, List.mem_append, List.mem_cons] at hturn
    rcases hturn with hturn | heq | hturn
    · exact .woken ht' (List.mem_append_left _ hturn)
    · cases heq
      exact .concluding ht' rfl .woken
    · exact .woken ht' (List.mem_append_right _ hturn)
  | requests | suspends | ends => exact .woken ht' (List.mem_append_left _ hturn)
  | _ => exact .woken ht' hturn

/-- A call that goes on ends within its turn. -/
theorem Fate.next_concluding (h : Serving id m) (ht : m.tasks[t]? = some (.finished o))
    (hfocus : m.focus = some (.root i, p)) (hroot : i < m.roots.length)
    (hp : Concluding c id m.world t o p) : Fate id i t c (m.advance (.root i) p) := by
  rcases h.proceeds_concluding hfocus ht hp with ⟨rfl, hforgot⟩ | ⟨w, q, heq, -, hq⟩
  · have hreturned : Fate id i t c (m.finish (.root i) (callOutcome c o)) :=
      .returned ht (List.getElem?_set_self hroot) hforgot
    rcases hend : callOutcome c o with f | v <;> rw [hend] at hreturned <;> exact hreturned
  · rw [heq]
    exact .concluding ht rfl hq

theorem Fate.next_returned (hd : Distinct m) (ht : m.tasks[t]? = some (.finished o))
    (hroot : m.roots[i]? = some (some (callOutcome c o)))
    (hforgot : m.world.requestOf id ≠ some t) (hmoves : Moves id m m') : Fate id i t c m' := by
  refine .returned (hmoves.finished ht) ?_ (hmoves.forgotten ht hforgot)
  cases hmoves with
  | @returns j o' hfocus =>
    have hne : j ≠ i := by
      rintro rfl
      have hrunning := (hd.root j).mp (mem_pending_of_focus hfocus)
      rw [hroot] at hrunning
      cases hrunning
    exact (List.getElem?_set_ne hne).trans hroot
  | _ => exact hroot

theorem Fate.next (h : Fate id i t c m) (hserving : Serving id m) (hd : Distinct m)
    (hnext : Next m m') : Fate id i t c m' := by
  have hmoves := hserving.moves hd hnext
  cases h with
  | waiting h => exact .next_waiting h hmoves
  | woken ht hturn => exact .next_woken ht hturn hmoves
  | concluding ht hfocus hp =>
    have hroot := (hd.root i).mp (mem_pending_of_focus hfocus)
    rw [hnext.eq_advance hfocus]
    exact .next_concluding hserving ht hfocus (List.getElem?_eq_some_iff.mp hroot).1 hp
  | returned ht hroot hforgot => exact .next_returned hd ht hroot hforgot hmoves

theorem Fate.of_reaches (h : Fate id i t c m) (hserving : Serving id m) (hd : Distinct m)
    (hrun : ReflTransGen Next m m') : Fate id i t c m' := by
  induction hrun with
  | refl => exact h
  | tail hrun hnext ih =>
    obtain ⟨hserving, hd⟩ := hserving.of_reaches hd hrun
    exact ih.next hserving hd hnext

/-! ## The first turn of a call -/

/-- A call has found the identity and returned. -/
def returning (i : Nat) (me : Identity) (m : Machine) : Machine :=
  { m with
    world := m.world.log (.identified me.username)
    focus := none
    roots := m.roots.set i (some (.ok .null)) }

/-- A call has come to wait for the request `t`, as the last one. -/
def joining (id i t : Nat) (c : Client) (ws : List (Owner × (Outcome → Process))) (m : Machine) :
    Machine :=
  { m with
    world := m.world.log .initializing
    focus := none
    tasks := m.tasks.set t (.running (ws ++ [(.root i, afterFetch id c t)])) }

/-- A call has made a request and waits for it. -/
def requesting (id i : Nat) (c : Client) (m : Machine) : Machine :=
  { m with
    world := (m.world.log .initializing).modifyBot id fun b =>
      { b with fetch := some m.tasks.length }
    focus := none
    tasks := m.tasks ++ [.running [(.root i, afterFetch id c m.tasks.length)]]
    ready := m.ready ++ [.resume (.shared m.tasks.length) c.fetch] }

theorem initIn_known {w : World} {me : Identity} (hid : w.identityOf id = some me) :
    initIn id w = announce id := by
  obtain ⟨b, hb, hidentity⟩ := Option.bind_eq_some_iff.mp hid
  unfold initIn
  rw [hb]
  dsimp only
  rw [hidentity]
  rfl

theorem initIn_unknown {w : World} (hbot : ∃ b, w.bot? id = some b) (hid : w.identityOf id = none)
    (hclient : w.client = some c) : initIn id w = log .initializing
      (match w.requestOf id with
        | some t => awaitFetch id c t
        | none => request id c) := by
  obtain ⟨b, hb⟩ := hbot
  rw [World.identityOf, hb] at hid
  have hidentity : b.identity = none := hid
  unfold initIn
  rw [World.requestOf, hb, hclient]
  dsimp only
  rw [hidentity]
  rfl

theorem announceIn_known {w : World} {me : Identity} (hid : w.identityOf id = some me) :
    announceIn id w = log (.identified me.username) done := by
  obtain ⟨b, hb, hidentity⟩ := Option.bind_eq_some_iff.mp hid
  unfold announceIn
  rw [hb]
  dsimp only
  rw [identity, hidentity]

/-- A call that finds an identity returns and makes no request. -/
theorem inTurn_returning {me : Identity} (hfocus : m.focus = some (.root i, init id))
    (hid : m.world.identityOf id = some me) : InTurn (.root i) m (returning i me m) := by
  have hfound : InTurn (.root i) m (m.focusOn (.root i) (announce id)) :=
    initIn_known hid ▸ (InTurn.refl m).advance hfocus
  have hsaid : InTurn (.root i) m (m.focusOn (.root i) (log (.identified me.username) done)) :=
    announceIn_known hid ▸ hfound.advance rfl
  exact (hsaid.advance rfl).advance rfl

/-- A call that finds a request under way waits for it and makes none. -/
theorem Serving.inTurn_joining (h : Serving id m) (hfocus : m.focus = some (.root i, init id))
    (hid : m.world.identityOf id = none) (hclient : m.world.client = some c)
    {ws : List (Owner × (Outcome → Process))} (ht : m.tasks[t]? = some (.running ws)) :
    InTurn (.root i) m (joining id i t c ws m) := by
  have hreq := h.requestOf_eq hfocus nofun ⟨ws, ht⟩
  have hinit := initIn_unknown h.hosts.bot hid hclient
  rw [hreq] at hinit
  have hfound : InTurn (.root i) m (m.focusOn (.root i) (log .initializing (awaitFetch id c t))) :=
    hinit ▸ (InTurn.refl m).advance hfocus
  exact (hfound.advance rfl).await rfl ht

/-- A call that finds neither makes a request. -/
theorem Serving.inTurn_requesting (h : Serving id m) (hfocus : m.focus = some (.root i, init id))
    (hid : m.world.identityOf id = none) (hclient : m.world.client = some c)
    (hreq : m.world.requestOf id = none) : InTurn (.root i) m (requesting id i c m) := by
  have hinit := initIn_unknown h.hosts.bot hid hclient
  rw [hreq] at hinit
  have hfound : InTurn (.root i) m (m.focusOn (.root i) (log .initializing (Bot.request id c))) :=
    hinit ▸ (InTurn.refl m).advance hfocus
  have hnoted := ((hfound.advance rfl).advance rfl).advance rfl
  have hset : ∀ ws ws', (m.tasks ++ [Shared.running ws]).set m.tasks.length (.running ws') =
      m.tasks ++ [.running ws'] := by simp
  rw [requesting, ← hset []]
  exact hnoted.await rfl (List.getElem?_concat_length ..)

/-! ## The last turn of a call -/

/-- A call that goes on after its request has ended does not lose its turn before it has ended,
too. -/
theorem Serving.exists_returned (h : Serving id m) (ht : m.tasks[t]? = some (.finished o))
    (hfocus : m.focus = some (.root i, p)) (hroot : i < m.roots.length)
    (hp : Concluding c id m.world t o p) :
    ∃ s, InTurn (.root i) m s ∧ s.roots[i]? = some (some (callOutcome c o)) := by
  induction acc_child p generalizing m with
  | intro p _ ih =>
    rcases h.proceeds_concluding hfocus ht hp with ⟨rfl, -⟩ | ⟨w, q, heq, hproceeds, hq⟩
    · have hadvance := (InTurn.refl m).advance hfocus
      refine ⟨_, hadvance, ?_⟩
      have hend : (m.finish (.root i) (callOutcome c o)).roots[i]? =
          some (some (callOutcome c o)) := List.getElem?_set_self hroot
      rcases hcall : callOutcome c o with f | v <;> rw [hcall] at hend <;> exact hend
    · have hadvance := (InTurn.refl m).advance hfocus
      rw [heq] at hadvance
      obtain ⟨s, hturn, hs⟩ := ih q hproceeds.child (h.next (.goesOn hfocus hproceeds)) ht rfl
        hroot hq
      exact ⟨s, hadvance.trans hturn, hs⟩

/-- A call that finds a request that has ended, and that no waiting call has come to know of yet,
ends as this request did. -/
theorem Serving.exists_returned_late (h : Serving id m) (hd : Distinct m)
    (hfocus : m.focus = some (.root i, init id)) (hid : m.world.identityOf id = none)
    (hclient : m.world.client = some c) (hreq : m.world.requestOf id = some t)
    (ht : m.tasks[t]? = some (.finished o)) :
    ∃ s, InTurn (.root i) m s ∧ s.roots[i]? = some (some (callOutcome c o)) := by
  have hroot := (hd.root i).mp (mem_pending_of_focus hfocus)
  have hinit := initIn_unknown h.hosts.bot hid hclient
  rw [hreq] at hinit
  have hfound : InTurn (.root i) m (m.focusOn (.root i) (log .initializing (awaitFetch id c t))) :=
    hinit ▸ (InTurn.refl m).advance hfocus
  have hwoken : InTurn (.root i) m { m with
      world := m.world.log .initializing
      focus := some (.root i, afterFetch id c t o) } := (hfound.advance rfl).await_finished rfl ht
  obtain ⟨s, hturn, hs⟩ := (h.of_reaches hd hwoken.reaches).1.exists_returned ht rfl
    (List.getElem?_eq_some_iff.mp hroot).1 .woken
  exact ⟨s, hwoken.trans hturn, hs⟩

/-- A call that has waited and has the turn ends within it, as the request has ended. -/
theorem Fate.exists_returned (h : Fate id i t c m) (hserving : Serving id m) (hd : Distinct m)
    (ht : m.tasks[t]? = some (.finished o)) (hfocus : m.focus = some (.root i, p)) :
    ∃ s, InTurn (.root i) m s ∧ s.roots[i]? = some (some (callOutcome c o)) := by
  have hroot := (hd.root i).mp (mem_pending_of_focus hfocus)
  cases h with
  | waiting h =>
    obtain ⟨ws, hws, -⟩ := h
    exact absurd ⟨ws, hws⟩ (not_inFlight ht)
  | woken _ hturn =>
    -- it would be in two places
    have hnodup := hd.nodup
    rw [pending_of_focus hfocus] at hnodup
    have hmem : .root i ∈ m.ready.map Turn.owner := List.mem_map_of_mem hturn
    exact absurd (List.mem_append_left _ hmem) (List.nodup_cons.mp hnodup).1
  | concluding ht' hfocus' hp =>
    rw [ht] at ht'
    rw [hfocus] at hfocus'
    cases ht'
    cases hfocus'
    exact hserving.exists_returned ht hfocus (List.getElem?_eq_some_iff.mp hroot).1 hp
  | returned _ hended =>
    rw [hroot] at hended
    cases hended

/-- When a call that waited for the last request has ended, the bot holds none. -/
theorem Fate.requestOf_eq_none (h : Fate id i t c m) (hserving : Serving id m) (hd : Distinct m)
    (hroot : m.roots[i]? = some (some o)) (hlast : t + 1 = m.tasks.length) :
    m.world.requestOf id = none := by
  have hgone : .root i ∉ pending m := by
    rw [hd.root, hroot]
    nofun
  cases h with
  | waiting h =>
    obtain ⟨ws, hws, hmem⟩ := h
    have hawaits : .root i ∈ m.tasks.flatMap awaiters := List.mem_flatMap.mpr
      ⟨_, List.mem_of_getElem? hws, List.mem_map_of_mem hmem⟩
    exact absurd (List.mem_append_right _ (List.mem_append_right _ hawaits)) hgone
  | woken _ hturn =>
    have hready : .root i ∈ m.ready.map Turn.owner := List.mem_map_of_mem hturn
    exact absurd (List.mem_append_right _ (List.mem_append_left _ hready)) hgone
  | concluding _ hfocus => exact absurd (mem_pending_of_focus hfocus) hgone
  | returned _ _ hforgot =>
    rcases hreq : m.world.requestOf id with _ | t'
    · rfl
    · have hlast' := hserving.request hreq
      obtain rfl : t' = t := by omega
      exact absurd hreq hforgot

/-! ## The identity -/

/-- A step that changes the identity assigns it, or takes a valid answer while there is none. -/
theorem Moves.identifies (h : Moves id m m') :
    m'.world.identityOf id = m.world.identityOf id ∨
      ∃ a p, m.focus = some (a, p) ∧ Identifies id m p m'.world := by
  cases h with
  | goesOn hfocus hproceeds => exact .inr ⟨_, _, hfocus, hproceeds.identifies⟩
  | _ => exact .inl rfl

/-- An identity may be replaced but not lost. -/
theorem Serving.identityOf_isSome (h : Serving id m) (hd : Distinct m)
    (hid : (m.world.identityOf id).isSome) (hrun : ReflTransGen Next m m') :
    (m'.world.identityOf id).isSome := by
  induction hrun with
  | refl => exact hid
  | @tail s s' hrun hnext ih =>
    obtain ⟨hserving, hdistinct⟩ := h.of_reaches hd hrun
    rcases (hserving.moves hdistinct hnext).identifies with heq | ⟨a, p, -, hidentifies⟩
    · rw [heq]
      exact ih
    · cases hidentifies with
      | kept heq =>
        rw [heq]
        exact ih
      | assigned _ heq =>
        rw [heq]
        rfl
      | fetched _ _ _ heq =>
        rw [heq]
        rfl

/-! ## Calls of `init` -/

/-- A client that cannot be reached. -/
def downClient : Client :=
  { me := .null, throws := some { kind := .plain .runtime, value := .str "down" } }

/-- A bot without an identity, and a client that cannot be reached. -/
def downWorld : World :=
  { client := some downClient, me := default, composers := [{ bot := some {} }] }

/-- Two calls of `init`. -/
def downCalls : Machine := ofRoots downWorld [init 0, init 0]

end Machine

end UpdateDispatch
