import UpdateDispatch.Proofs.Dispatch.Requests

/-!
# One request at a time

What every step of a run of `init` calls keeps: the bot holds the request that is under way, which
is the last one (`Machine.Serving.next`), and nobody is in two places (`Machine.Distinct.next`). So
there is at most one request under way, and whoever has not ended runs, has a turn or waits for that
request.
-/

namespace UpdateDispatch

open Relation

namespace Machine

open Process UpdateDispatch.Bot

variable {id i t : Nat} {m m' : Machine} {a b : Owner} {p q : Process}
  {o : Outcome} {w : World} {tasks : List Shared} {c : Client}

/-! ## What steps keep -/

theorem not_inFlight (ht : m.tasks[t]? = some (.finished o)) : ¬ InFlight m t := by
  rintro ⟨ws, hws⟩
  rw [ht] at hws
  cases hws

theorem getElem?_set_of_finished {ws : List (Owner × (Outcome → Process))} {t' : Nat}
    (ht : tasks[t]? = some (.running ws)) (s : Shared) (h : tasks[t']? = some (.finished o)) :
    (tasks.set t s)[t']? = some (.finished o) := by
  have hne : t ≠ t' := by
    rintro rfl
    rw [ht] at h
    cases h
  rw [List.getElem?_set_ne hne, h]

theorem inFlight_iff_of_set {s : Shared} {t' : Nat} (hne : t' ≠ t)
    (htasks : m'.tasks = m.tasks.set t s) : InFlight m' t' ↔ InFlight m t' := by
  rw [InFlight, InFlight, htasks, List.getElem?_set_ne hne.symm]

theorem inFlight_append {s : Shared} (htasks : m'.tasks = m.tasks ++ [s]) (ht : InFlight m' t) :
    InFlight m t ∨ t = m.tasks.length := by
  obtain ⟨ws, hws⟩ := ht
  rw [htasks, List.getElem?_append] at hws
  split at hws
  · exact .inl ⟨ws, hws⟩
  · obtain ⟨hlt, -⟩ := List.getElem?_eq_some_iff.mp hws
    rw [List.length_singleton] at hlt
    exact .inr (by omega)

/-- While no request is about to be noted, and when the running process has given up its turn, the
bot holds the request that is under way. -/
theorem Serving.flight_idle (h : Serving id m) (hfocus : m.focus = some (a, p))
    (hp : ∀ c t, p ≠ noteRequest id c t) (ht : InFlight m t) {m' : Machine} :
    t + 1 = m.tasks.length ∧
      (m.world.requestOf id = some t ∨ ∃ a c, m'.focus = some (a, noteRequest id c t)) :=
  ⟨(h.flight ht).1, .inl (h.requestOf_eq hfocus hp ht)⟩

theorem Serving.next_turn (h : Serving id m) {before after : List Turn}
    (hfocus : m.focus = none) (hready : m.ready = before ++ .resume a p :: after)
    (hp : Queued id m.tasks a p) :
    Serving id { m with ready := before ++ after, focus := some (a, p) } where
  hosts := h.hosts
  running := by
    rintro _ _ ⟨⟩
    exact hp.running m.world
  queued {u} hu := by
    refine h.queued ?_
    rw [hready]
    rcases List.mem_append.mp hu with hu | hu
    · exact List.mem_append_left _ hu
    · exact List.mem_append_right _ (List.mem_cons_of_mem _ hu)
  waiters := h.waiters
  request := h.request
  flight ht := by
    refine ⟨(h.flight ht).1, .inl ((h.flight ht).2.resolve_right ?_)⟩
    rintro ⟨b, c, hc⟩
    rw [hfocus] at hc
    cases hc

theorem Serving.next_goesOn (h : Serving id m) (hproceeds : Proceeds id m a p w q) :
    Serving id { m with world := w, focus := some (a, q) } where
  hosts := hproceeds.hosts
  running := by
    rintro _ _ ⟨⟩
    exact hproceeds.running
  queued := h.queued
  waiters := h.waiters
  request hreq := (hproceeds.request hreq).elim h.request fun hrun => (h.flight hrun).1
  flight ht := ⟨(h.flight ht).1, .inl (hproceeds.flight ht)⟩

/-- A new request is the only one under way. -/
theorem Serving.next_requests (h : Serving id m)
    (hfocus : m.focus = some (.root i, Bot.request id c))
    (hreq : m.world.requestOf id = none) :
    Serving id { m with
      focus := some (.root i, noteRequest id c m.tasks.length)
      tasks := m.tasks ++ [.running []]
      ready := m.ready ++ [.resume (.shared m.tasks.length) c.fetch] } := by
  have hnone : ∀ {t}, ¬ InFlight m t := fun ht => by
    have := h.requestOf_eq hfocus nofun ht
    rw [hreq] at this
    cases this
  exact {
    hosts := h.hosts
    running := by
      rintro _ _ ⟨⟩
      exact .noting hreq (List.getElem?_concat_length ..)
    queued := fun {u} hu => by
      rcases List.mem_append.mp hu with hu | hu
      · obtain ⟨a, p, rfl, hp⟩ := h.queued hu
        exact ⟨a, p, rfl, hp.mono fun ht => List.getElem?_append_left
          (List.getElem?_eq_some_iff.mp ht).1 ▸ ht⟩
      · exact ⟨_, _, List.mem_singleton.mp hu, .fetching⟩
    waiters := fun {t ws a k} ht hk => by
      rcases inFlight_append rfl ⟨ws, ht⟩ with hrun | rfl
      · exact absurd hrun hnone
      · rw [List.getElem?_concat_length] at ht
        cases ht
        cases hk
    request := fun hreq' => by
      rw [hreq] at hreq'
      cases hreq'
    flight := fun {t} ht => by
      rcases inFlight_append rfl ht with hrun | rfl
      · exact absurd hrun hnone
      · exact ⟨by simp, .inr ⟨_, c, rfl⟩⟩ }

theorem Serving.next_waits (h : Serving id m) {ws : List (Owner × (Outcome → Process))}
    (hfocus : m.focus = some (.root i, awaitFetch id c t))
    (ht : m.tasks[t]? = some (.running ws)) :
    Serving id { m.idle with
      tasks := m.tasks.set t (.running (ws ++ [(.root i, afterFetch id c t)])) } where
  hosts := h.hosts
  running := nofun
  queued hu := by
    obtain ⟨a, p, rfl, hp⟩ := h.queued hu
    exact ⟨a, p, rfl, hp.mono (getElem?_set_of_finished ht _)⟩
  waiters {t' ws' a k} ht' hk := by
    by_cases hne : t' = t
    · subst hne
      rw [List.getElem?_set_self (List.getElem?_eq_some_iff.mp ht).1] at ht'
      cases ht'
      rcases List.mem_append.mp hk with hk | hk
      · exact h.waiters ht hk
      · cases List.mem_singleton.mp hk
        exact ⟨i, c, rfl, rfl⟩
    · rw [List.getElem?_set_ne (Ne.symm hne)] at ht'
      exact h.waiters ht' hk
  request hreq := (h.request hreq).trans List.length_set.symm
  flight {t'} ht' := by
    rw [List.length_set]
    by_cases hne : t' = t
    · subst hne
      exact h.flight_idle hfocus nofun ⟨ws, ht⟩
    · exact h.flight_idle hfocus nofun ((inFlight_iff_of_set hne rfl).mp ht')

theorem ended_ne_noteRequest (o : Outcome) (c : Client) (t : Nat) :
    ended o ≠ noteRequest id c t := by
  cases o <;> nofun

theorem Serving.next_returns (h : Serving id m) (hfocus : m.focus = some (.root i, ended o)) :
    Serving id { m.idle with roots := m.roots.set i (some o) } where
  hosts := h.hosts
  running := nofun
  queued := h.queued
  waiters := h.waiters
  request := h.request
  flight ht := h.flight_idle hfocus (ended_ne_noteRequest o) ht

theorem Serving.next_suspends (h : Serving id m) {n : Nat}
    (hfocus : m.focus = some (.shared t, pauses (n + 1) (ended o))) :
    Serving id (m.idle.queue (.resume (.shared t) (pauses n (ended o)))) where
  hosts := h.hosts
  running := nofun
  queued hu := by
    rcases List.mem_append.mp hu with hu | hu
    · exact h.queued hu
    · exact ⟨_, _, List.mem_singleton.mp hu, .suspended⟩
  waiters := h.waiters
  request := h.request
  flight ht := h.flight_idle hfocus nofun ht

/-- A request that ends gives a turn to all that wait for it. -/
theorem Serving.next_ends (h : Serving id m) {ws : List (Owner × (Outcome → Process))}
    (hfocus : m.focus = some (.shared t, ended o)) (ht : m.tasks[t]? = some (.running ws)) :
    Serving id { m.idle with
      tasks := m.tasks.set t (.finished o)
      ready := m.ready ++ ws.map fun (a, k) => .resume a (k o) } := by
  have hended : (m.tasks.set t (.finished o))[t]? = some (.finished o) :=
    List.getElem?_set_self (List.getElem?_eq_some_iff.mp ht).1
  have hother : ∀ {t' ws'}, (m.tasks.set t (.finished o))[t']? = some (.running ws') → t' ≠ t := by
    rintro t' ws' ht' rfl
    rw [hended] at ht'
    cases ht'
  exact {
    hosts := h.hosts
    running := nofun
    queued := fun {u} hu => by
      rcases List.mem_append.mp hu with hu | hu
      · obtain ⟨a, p, rfl, hp⟩ := h.queued hu
        exact ⟨a, p, rfl, hp.mono (getElem?_set_of_finished ht _)⟩
      · obtain ⟨⟨a, k⟩, hk, rfl⟩ := List.mem_map.mp hu
        obtain ⟨i, c, rfl, rfl⟩ := h.waiters ht hk
        exact ⟨_, _, rfl, .woken hended⟩
    waiters := fun {t' ws' a k} ht' hk => by
      have hne := hother ht'
      rw [List.getElem?_set_ne hne.symm] at ht'
      exact h.waiters ht' hk
    request := fun hreq => (h.request hreq).trans List.length_set.symm
    flight := fun {t'} ht' => by
      rw [List.length_set]
      exact h.flight_idle hfocus (ended_ne_noteRequest o)
        ((inFlight_iff_of_set (hother ht'.choose_spec) rfl).mp ht') }

theorem Serving.next (h : Serving id m) (hmoves : Moves id m m') :
    Serving id m' := by
  cases hmoves with
  | turn hfocus hready hp => exact h.next_turn hfocus hready hp
  | goesOn hfocus hproceeds => exact h.next_goesOn hproceeds
  | requests hfocus hreq => exact h.next_requests hfocus hreq
  | waits hfocus ht => exact h.next_waits hfocus ht
  | returns hfocus => exact h.next_returns hfocus
  | suspends hfocus => exact h.next_suspends hfocus
  | ends hfocus ht => exact h.next_ends hfocus ht

/-! ## Nobody is lost -/

theorem perm_flatMap_set {α : Type} (f : Shared → List α) {s : Shared}
    (ht : tasks[t]? = some s) (s' : Shared) :
    (f s ++ (tasks.set t s').flatMap f).Perm (f s' ++ tasks.flatMap f) := by
  induction tasks generalizing t with
  | nil => cases ht
  | cons u tasks ih =>
    cases t with
    | zero =>
      cases ht
      exact List.perm_append_comm_assoc ..
    | succ t =>
      calc f s ++ (f u ++ (tasks.set t s').flatMap f)
        _ |>.Perm (f u ++ (f s ++ (tasks.set t s').flatMap f)) := List.perm_append_comm_assoc ..
        _ |>.Perm (f u ++ (f s' ++ tasks.flatMap f)) := (ih ht).append_left _
        _ |>.Perm (f s' ++ (f u ++ tasks.flatMap f)) := List.perm_append_comm_assoc ..

theorem Distinct.of_perm (h : Distinct m) (hperm : (pending m').Perm (pending m))
    (hroots : m'.roots = m.roots) (hflight : ∀ t, InFlight m' t ↔ InFlight m t) : Distinct m' where
  nodup := hperm.nodup_iff.mpr h.nodup
  root i := by rw [hperm.mem_iff, h.root, hroots]
  shared t := by rw [hperm.mem_iff, h.shared, hflight]

/-- One owner has left. -/
theorem Distinct.of_gone (h : Distinct m) (hperm : (a :: pending m').Perm (pending m))
    (hroot : ∀ i, m'.roots[i]? = some none ↔ .root i ≠ a ∧ m.roots[i]? = some none)
    (hflight : ∀ t, InFlight m' t ↔ .shared t ≠ a ∧ InFlight m t) : Distinct m' := by
  obtain ⟨hfresh, hnodup⟩ := List.nodup_cons.mp (hperm.nodup_iff.mpr h.nodup)
  have hmem : ∀ b, b ∈ pending m' ↔ b ≠ a ∧ b ∈ pending m := fun b => by
    rw [← hperm.mem_iff, List.mem_cons]
    constructor
    · intro hb
      exact ⟨fun heq => hfresh (heq ▸ hb), .inr hb⟩
    · rintro ⟨hne, hb⟩
      exact hb.resolve_left hne
  exact {
    nodup := hnodup
    root := fun i => by rw [hmem, h.root, hroot]
    shared := fun t => by rw [hmem, h.shared, hflight] }

/-- The owners that have a turn or wait for a shared task. -/
def resting (m : Machine) : List Owner := m.ready.map Turn.owner ++ m.tasks.flatMap awaiters

theorem pending_of_focus (hfocus : m.focus = some (a, p)) : pending m = a :: resting m := by
  rw [pending, hfocus]
  rfl

theorem pending_of_idle (hfocus : m.focus = none) : pending m = resting m := by
  rw [pending, hfocus]
  rfl

/-- A new request is in one place, its turn. -/
theorem Distinct.next_requests (h : Distinct m) (hfocus : m.focus = some (a, p)) (q r : Process) :
    Distinct { m with
      focus := some (a, q)
      tasks := m.tasks ++ [.running []]
      ready := m.ready ++ [.resume (.shared m.tasks.length) r] } := by
  have hperm : (pending { m with
      focus := some (a, q)
      tasks := m.tasks ++ [.running []]
      ready := m.ready ++ [.resume (.shared m.tasks.length) r] }).Perm
      (.shared m.tasks.length :: pending m) := by
    rw [pending_of_focus hfocus, pending_of_focus rfl, resting, resting]
    simp only [List.map_append, List.flatMap_append, List.append_assoc, List.map_cons,
      List.map_nil, List.flatMap_singleton, awaiters, List.append_nil, List.cons_append,
      List.nil_append, Turn.owner]
    exact (List.perm_middle.cons a).trans (.swap ..)
  have hfresh : ¬ InFlight m m.tasks.length := by
    rintro ⟨ws, hws⟩
    simp at hws
  refine ⟨hperm.nodup_iff.mpr (List.nodup_cons.mpr ⟨fun hmem => hfresh ((h.shared _).mp hmem),
    h.nodup⟩), fun i => ?_, fun t => ?_⟩
  · rw [hperm.mem_iff, List.mem_cons, h.root]
    simp
  · rw [hperm.mem_iff, List.mem_cons, h.shared]
    constructor
    · rintro (ht | ⟨ws, hws⟩)
      · cases ht
        exact ⟨[], List.getElem?_concat_length ..⟩
      · exact ⟨ws, List.getElem?_append_left (List.getElem?_eq_some_iff.mp hws).1 ▸ hws⟩
    · intro ht
      exact (inFlight_append rfl ht).symm.imp_left (congrArg Owner.shared)

/-- The turns of those who wait for a task that has ended. -/
abbrev woken (ws : List (Owner × (Outcome → Process))) (o : Outcome) : List Turn :=
  ws.map fun (a, k) => .resume a (k o)

theorem owners_woken (ws : List (Owner × (Outcome → Process))) (o : Outcome) :
    (woken ws o).map Turn.owner = ws.map Prod.fst := by
  rw [woken, List.map_map]
  rfl

/-- Who waits for a request has no turn until then. -/
theorem Distinct.next_waits (h : Distinct m) (hfocus : m.focus = some (a, p))
    {ws : List (Owner × (Outcome → Process))} (ht : m.tasks[t]? = some (.running ws))
    (k : Outcome → Process) :
    Distinct { m.idle with tasks := m.tasks.set t (.running (ws ++ [(a, k)])) } := by
  refine h.of_perm ?_ rfl fun t' => ?_
  · have hset := perm_flatMap_set awaiters ht (.running (ws ++ [(a, k)]))
    rw [awaiters, awaiters, List.map_append, List.append_assoc, List.perm_append_left_iff] at hset
    rw [pending_of_focus hfocus, pending_of_idle rfl]
    exact (hset.append_left _).trans List.perm_middle
  · by_cases hne : t' = t
    · subst hne
      exact ⟨fun _ => ⟨ws, ht⟩,
        fun _ => ⟨_, List.getElem?_set_self (List.getElem?_eq_some_iff.mp ht).1⟩⟩
    · exact inFlight_iff_of_set hne rfl

theorem Distinct.next_returns (h : Distinct m) (hfocus : m.focus = some (.root i, p))
    (o : Outcome) : Distinct { m.idle with roots := m.roots.set i (some o) } := by
  refine h.of_gone (a := .root i) ?_ (fun j => ?_) fun t => ⟨fun ht => ⟨by simp, ht⟩, And.right⟩
  · rw [pending_of_focus hfocus]
    exact .refl _
  · rw [List.getElem?_set]
    by_cases hij : i = j
    · subst hij
      simp
    · simp [hij, Ne.symm hij]

/-- When a request ends, all who wait for it have their turns. -/
theorem Distinct.next_ends (h : Distinct m) (hfocus : m.focus = some (.shared t, p))
    {ws : List (Owner × (Outcome → Process))} (ht : m.tasks[t]? = some (.running ws))
    (o : Outcome) : Distinct { m.idle with
      tasks := m.tasks.set t (.finished o)
      ready := m.ready ++ woken ws o } := by
  have hended : (m.tasks.set t (.finished o))[t]? = some (.finished o) :=
    List.getElem?_set_self (List.getElem?_eq_some_iff.mp ht).1
  refine h.of_gone (a := .shared t) ?_ (fun j => ⟨fun hj => ⟨by simp, hj⟩, And.right⟩)
    fun t' => ?_
  · have hset := perm_flatMap_set awaiters ht (.finished o)
    rw [pending_of_focus hfocus, pending_of_idle rfl, resting, resting, List.map_append,
      owners_woken, List.append_assoc]
    exact (hset.append_left _).cons _
  · by_cases hne : t' = t
    · subst hne
      exact ⟨fun hrun => absurd hrun (not_inFlight hended), fun hrun => absurd rfl hrun.1⟩
    · rw [inFlight_iff_of_set hne rfl]
      exact ⟨fun h => ⟨fun heq => hne (Owner.shared.inj heq), h⟩, And.right⟩

theorem Distinct.next (h : Distinct m) (hmoves : Moves id m m') : Distinct m' := by
  cases hmoves with
  | @turn a p before after hfocus hready hp =>
    refine h.of_perm ?_ rfl fun t => .rfl
    rw [pending_of_idle hfocus, pending_of_focus rfl, resting, resting, hready]
    simp only [List.map_append, List.map_cons, List.append_assoc, List.cons_append]
    exact List.perm_middle.symm
  | goesOn hfocus _ =>
    refine h.of_perm ?_ rfl fun t => .rfl
    rw [pending_of_focus hfocus]
    exact .refl _
  | requests hfocus => exact h.next_requests hfocus _ _
  | waits hfocus ht => exact h.next_waits hfocus ht _
  | returns hfocus => exact h.next_returns hfocus _
  | @suspends t n o hfocus =>
    refine h.of_perm ?_ rfl fun t' => .rfl
    rw [pending_of_focus hfocus, pending_of_idle rfl, resting, resting, queue, List.map_append,
      List.append_assoc]
    exact List.perm_middle
  | ends hfocus ht => exact h.next_ends hfocus ht _

/-! ## Runs -/

/-- What the roots of such a run do: they call `init`, assign an identity, or make the client answer
differently from then on. -/
inductive Attends (id : Nat) : Process → Prop
  | init : Attends id (init id)
  | assign (me : Identity) : Attends id (assign id me)
  | answer (c : Client) : Attends id (answerWith c)

theorem Attends.queued (h : Attends id p) : Queued id tasks (.root i) p := by
  cases h with
  | init => exact .init
  | assign => exact .assign
  | answer => exact .answer

theorem serving_ofRoots {ps : List Process} (hhosts : Hosts id w) (hreq : w.requestOf id = none)
    (hps : ∀ p ∈ ps, Attends id p) : Serving id (ofRoots w ps) where
  hosts := hhosts
  running := nofun
  queued {t} ht := by
    obtain ⟨i, hi, rfl⟩ := List.mem_mapIdx.mp ht
    exact ⟨_, _, rfl, (hps _ (List.getElem_mem hi)).queued⟩
  waiters := nofun
  request ht := by
    rw [ofRoots, hreq] at ht
    cases ht
  flight ht := nomatch ht.choose_spec

theorem distinct_ofRoots (w : World) (ps : List Process) : Distinct (ofRoots w ps) := by
  have hpending : pending (ofRoots w ps) = (List.range ps.length).map Owner.root := by
    rw [pending_of_idle rfl, resting, owners_ofRoots]
    exact List.append_nil _
  refine ⟨?_, fun i => ?_, fun t => ?_⟩
  · rw [hpending]
    exact List.nodup_range.map fun i j h => Owner.root.inj h
  · rw [hpending]
    simp [ofRoots, List.getElem?_replicate]
  · rw [hpending]
    simp [ofRoots, InFlight]

/-- What holds at the start of such a run holds throughout. -/
theorem Serving.of_reaches (h : Serving id m) (hd : Distinct m) (hrun : ReflTransGen Next m m') :
    Serving id m' ∧ Distinct m' := by
  induction hrun with
  | refl => exact ⟨h, hd⟩
  | tail _ hnext ih =>
    have hmoves := ih.1.moves ih.2 hnext
    exact ⟨ih.1.next hmoves, ih.2.next hmoves⟩

end Machine

end UpdateDispatch
