import UpdateDispatch.Proofs.Dispatch.Gates
import UpdateDispatch.Proofs.Dispatch.Sparing

/-!
# Where containers are asked

In a dispatch, containers are asked by a registration that a script makes, and in the calls of links
that choose. `Machine.Stands` says where the process of an owner is: it spares the containers, or
it is in such a call and asks the probe, or it is about to ask the containers of what was selected,
or to register something. Every step keeps this (`Machine.Booked.next`), and so of every change of
the state it is known which call or which registration it belongs to (`Machine.wrote_of_trace`).
-/

namespace UpdateDispatch

open Relation Process

/-! ## Steps -/

/-- What the process does first is to ask nothing, or to register something. -/
def Process.Acts (K : Terms) : Process → Prop
  | .value _ | .raised _ => True
  | .deferred p | .pause p | .useGuard _ p => p.Spares K
  | .read k => (∀ w, w.Spares K → (k w).Spares K) ∨
    ∃ (s : UpdateDispatch.Step) (rest : World → Process), s.Scripted K ∧
      (∀ w, w.Spares K → (rest w).Spares K) ∧ k = fun w => .write (fun _ => s.effect w) (rest w)
  | .write f p => Inert f ∧ p.Spares K
  | .newGuard k => ∀ guard, (k guard).Spares K
  | .checkGuard _ k => ∀ used, (k used).Spares K
  | .both l r k => l.Spares K ∧ r.Spares K ∧ ∀ s, (k s).Spares K
  | .start _ _ | .await _ _ => False
  | .enter l _ next k => l.Spares K ∧ next.Spares K ∧ ∀ o, (k o).Spares K

/-- The call offers none of these containers, and neither does what it leads to. -/
structure Passage.Spares (K : Terms) (T : Passage) : Prop where
  choice : T.choice.Spares K
  raised : ∀ f, (T.entered (.error f)).Spares K
  entered : ∀ chain : Link, chain.Spares K → (T.entered (.ok chain)).Spares K

namespace Passage

variable {K : Terms} {T : Passage} {p : Process} {v : Json}

theorem mute_asked (T : Passage) : T.asked.Mute := T.choice.probe.mute_asked T.x

/-- What is selected spares what the choice does, and so does the chain that is entered. -/
theorem Spares.asks_perform (h : T.Spares K) {o : Offer} (ho : T.choice.select v = .ok o) :
    Build.Asks K (o.flattened ++ o.containers) (Link.Spares K) o.perform :=
  Offer.asks_perform (h.choice.select ho)

/-- What is entered spares the containers, whether or not the middleware was made a chain. -/
theorem Spares.entered_outcome (h : T.Spares K) {o : Offer} (ho : T.choice.select v = .ok o)
    {w : World} (hw : w.Spares K) : (T.entered (o.perform.outcome w).1).Spares K := by
  have hasks := h.asks_perform ho w hw
  generalize o.perform.outcome w = result at hasks
  cases hasks with
  | ok _ _ hchain => exact h.entered _ hchain
  | error _ _ _ => exact h.raised _

/-- The process of a probe that has ended. -/
theorem asking_ok {o : Offer} (ho : T.choice.select v = .ok o) :
    T.asking (.value v) = T.around (o.run T.x T.next) := by
  rw [asking, Process.andThen, Choice.after, ho]

theorem asking_refused {f : Fault} (hf : T.choice.select v = .error f) :
    T.asking (.value v) = T.entered (.error f) := by
  rw [asking, Process.andThen, Choice.after, hf]
  rfl

theorem asking_raised (T : Passage) (f : Fault) : T.asking (.raised f) = T.entered (.error f) :=
  rfl

/-- What asks the probe does what the probe does, until it has ended. -/
theorem encloses_asking (T : Passage) : Encloses T.asking fun p => ∃ o, Ended p.strip o :=
  T.surrounds.encloses_await _

/-- The probe is asked, or it has answered and something is selected. -/
inductive Choosing (T : Passage) : Process → Prop
  | busy {p : Process} (hleads : Leads T.asked p) (h : ¬ ∃ o, Ended p.strip o) : Choosing T p
  | answered {v : Json} {o : Offer} (hleads : Leads T.asked (.value v))
      (hselect : T.choice.select v = .ok o) : Choosing T (.value v)

/-- While the call is choosing, the state is not replaced by another one. -/
theorem Choosing.ne_write {w : World} {q : Process} (h : T.Choosing p) :
    T.asking p ≠ .write (fun _ => w) q := by
  intro heq
  cases h with
  | busy hleads hend =>
    obtain ⟨p', hawaits⟩ := T.encloses_asking.writes hend heq
    cases T.mute_asked.of_leads (hleads.trans hawaits.leads) with
    | write hf _ => exact not_inert_const w hf
  | answered _ hselect =>
    rw [asking_ok hselect, T.around_run] at heq
    cases heq

end Passage

namespace Machine

/-! ## Calls that ask -/

/-- In these states the call has begun in the process of `b`, and since then it is choosing. -/
inductive Asking (T : Passage) (b : Owner) : List Machine → Prop
  | intro {before during : List Machine} {r : Machine} (hstart : r.focus = some (b, T.start))
      (hchoosing : T.Choosing T.asked) (hduring : Keeps b T.asking T.Choosing during) :
      Asking T b (before ++ r :: during)

variable {K : Terms} {T : Passage} {m m' : Machine} {past states : List Machine}
  {place : Owner → Place} {b c : Owner} {w : World} {p q : Process} {f : World → World} {v : Json}

theorem Asking.snoc (h : Asking T b states)
    (hm : ∀ q, m.focus = some (b, q) → ∃ p, q = T.asking p ∧ T.Choosing p) :
    Asking T b (states ++ [m]) := by
  cases h with
  | intro hstart hchoosing hduring =>
    rw [List.append_assoc, List.cons_append]
    exact .intro hstart hchoosing (hduring.snoc hm)

/-- A call has done with choosing when it asks for what it has selected: one that is choosing later
has begun since then. -/
theorem Asking.of_write (hm : m.focus = some (b, .write (fun _ => w) q))
    (h : Asking T b (past ++ m :: states)) : Asking T b states := by
  generalize hall : past ++ m :: states = all at h
  cases h with
  | @intro before during r hstart hchoosing hduring =>
    have hne : ∀ {p}, T.Choosing p → m.focus ≠ some (b, T.asking p) := fun hp heq => by
      rw [hm] at heq
      exact hp.ne_write (Prod.mk.inj (Option.some.inj heq)).2.symm
    rw [T.start_eq] at hstart
    rcases List.append_eq_append_iff.mp hall with
      ⟨_ | ⟨_, mid⟩, -, hlater⟩ | ⟨_ | ⟨_, mid⟩, -, hlater⟩
    · cases hlater
      exact absurd hstart (hne hchoosing)
    · cases hlater
      exact .intro (T.start_eq ▸ hstart) hchoosing hduring
    · cases hlater
      exact absurd hstart (hne hchoosing)
    · cases hlater
      obtain ⟨p, heq, hp⟩ := hduring m (List.mem_append_right _ List.mem_cons_self) _ hm
      exact absurd heq.symm hp.ne_write

/-- A process that rests or is about to run: it spares the containers, or it asks a probe. -/
inductive Pending (K : Terms) (past : List Machine) (b : Owner) (q : Process) : Prop
  | sparing (h : q.Spares K)
  | asking {T : Passage} {p : Process} (hT : T.Spares K) (hpast : Asking T b past)
      (hleads : Leads T.asked p) (heq : q = T.asking p)

/-- Where a process stands that runs in the state `w`, after the states `past`. -/
inductive Stands (K : Terms) (past : List Machine) (b : Owner) (w : World) (q : Process) :
    Prop
  | pending (h : Pending K past b q)
  | selecting {T : Passage} {v : Json} {o : Offer} (hT : T.Spares K) (hpast : Asking T b past)
      (hanswer : Leads T.asked (.value v)) (hselect : T.choice.select v = .ok o)
      (heq : q = .write (fun _ => (o.perform.outcome w).2) (T.entered (o.perform.outcome w).1))
  | registering {s : UpdateDispatch.Step} {p : Process} (hs : s.Scripted K) (hp : p.Spares K)
      (heq : q = .write (fun _ => s.effect w) p)

theorem Pending.snoc (h : Pending K past b q) (hb : ∀ q, m.focus ≠ some (b, q)) :
    Pending K (past ++ [m]) b q := by
  cases h with
  | sparing h => exact .sparing h
  | asking hT hpast hleads heq =>
    exact .asking hT (hpast.snoc fun q hq => absurd hq (hb q)) hleads heq

/-- What a running process is about to do: one that asks a probe goes on, unless the probe has
ended. Then the containers of what is selected are about to be asked. -/
inductive Normal (K : Terms) (states : List Machine) (b : Owner) (q : Process) : Prop
  | acts (h : q.Acts K)
  | asking {T : Passage} {p : Process} (hT : T.Spares K) (hstates : Asking T b states)
      (hleads : Leads T.asked p) (hbusy : ¬ ∃ o, Ended p.strip o) (heq : q = T.asking p)
  | selected {T : Passage} {v : Json} {o : Offer} (hT : T.Spares K)
      (hstates : Asking T b states) (hanswer : Leads T.asked (.value v))
      (hselect : T.choice.select v = .ok o) (heq : q = T.around (o.run T.x T.next))

/-- A call that asks its probe. Where it has raised, it is over. -/
theorem normal_of_asking (hT : T.Spares K) (hstates : T.Choosing p → Asking T b states)
    (hleads : Leads T.asked p) (heq : q = T.asking p)
    (hraised : ∀ f, q = T.entered (.error f) → Normal K states b q) : Normal K states b q := by
  by_cases hend : ∃ o, Ended p.strip o
  · obtain ⟨o, hend⟩ := hend
    rw [(T.mute_asked.of_leads hleads).strip_eq] at hend
    cases hend with
    | raised f => exact hraised f (heq.trans (T.asking_raised f))
    | value v =>
      rcases hselect : T.choice.select v with f | o
      · exact hraised f (heq.trans (Passage.asking_refused hselect))
      · exact .selected hT (hstates (.answered hleads hselect)) hleads hselect
          (heq.trans (Passage.asking_ok hselect))
  · exact .asking hT (hstates (.busy hleads hend)) hleads hend heq

/-- By induction on what the process is made of: a call whose probe has raised at once leads to
something smaller. -/
theorem normal_of_spares (h : q.Spares K) (hfocus : m.focus = some (b, q)) :
    Normal K (past ++ [m]) b q := by
  induction h with
  | value v | raised f => exact .acts trivial
  | deferred h | useGuard h | pause h => exact .acts h
  | read h => exact .acts (.inl h)
  | write hf h => exact .acts ⟨hf, h⟩
  | newGuard h | checkGuard h => exact .acts h
  | both hl hr hk => exact .acts ⟨hl, hr, hk⟩
  | enter hl hnext hk => exact .acts ⟨hl, hnext, hk⟩
  | register hs h => exact .acts (.inr ⟨_, _, hs, h, rfl⟩)
  | @traverse T q hstart hchoice hraised hentered ih _ =>
    subst hstart
    refine normal_of_asking ⟨hchoice, hraised, hentered⟩
      (fun hchoosing => .intro hfocus hchoosing keeps_nil) .refl T.start_eq fun f heq => ?_
    rw [heq]
    exact ih f (heq ▸ hfocus)

theorem Pending.normal (h : Pending K past b q) (hfocus : m.focus = some (b, q)) :
    Normal K (past ++ [m]) b q := by
  cases h with
  | sparing h => exact normal_of_spares h hfocus
  | @asking T p hT hpast hleads heq =>
    have hstates : T.Choosing p → Asking T b (past ++ [m]) := fun hchoosing =>
      hpast.snoc fun q' hq' => by
        rw [hfocus] at hq'
        cases hq'
        exact ⟨p, heq, hchoosing⟩
    refine normal_of_asking hT hstates hleads heq fun f heq => ?_
    subst heq
    exact normal_of_spares (hT.raised f) hfocus

/-! ## Steps of a process -/

end Machine

namespace Trait

open Machine (Runs Parks Pending Stands Asking Obeys)

variable {K : Terms} {past states : List Machine} {b : Owner} {n : Nat} {w : World}
  {p q : Process} {T : Passage}

/-- Processes that are trusted, and that stand somewhere after some states. -/
def booked (K : Terms) (past : List Machine) (b : Owner) : Trait where
  now n w p := trusted.now n w p ∧ Stands K past b w p
  later n marks p := trusted.later n marks p ∧ Pending K past b p
  mono h hn hm := ⟨trusted.mono h.1 hn hm, h.2⟩
  of_later h := ⟨trusted.of_later h.1, .pending h.2⟩

theorem leaves_booked (h : trusted.now n w p)
    (hruns : ∀ {n' w' q}, Runs n w p n' w' q → Stands K states b w' q)
    (hparks : ∀ {j a q}, (∀ left, a ≠ .side j left) → Parks j a p a q → Pending K states b q)
    (hsides : ∀ {j a left q}, (∀ left, a ≠ .side j left) → Parks j a p (.side j left) q →
      q.Spares K) : (booked K states b).Leaves (shaped (Process.Spares K)) n w p := by
  have hleaves := upheld_sound _ h
  exact ⟨fun hstep => ⟨⟨(hleaves.runs hstep).1, hruns hstep⟩, (hleaves.runs hstep).2⟩,
    fun ha hstep => ⟨hleaves.parks ha hstep, hparks ha hstep⟩,
    fun ha hstep => ⟨hleaves.sides ha hstep, hsides ha hstep⟩, hleaves.starts⟩

/-- A step that is not in a call of a link that chooses. -/
theorem leaves_acts (h : trusted.now n w p) (hw : w.Spares K) (hp : p.Acts K) :
    (booked K states b).Leaves (shaped (Process.Spares K)) n w p := by
  refine leaves_booked h (fun hruns => ?_) (fun ha hparks => ?_) fun ha hparks => ?_
  · cases hruns with
    | deferred | useGuard => exact .pending (.sparing hp)
    | read =>
      rcases hp with hp | ⟨s, rest, hs, hrest, rfl⟩
      · exact .pending (.sparing (hp w hw))
      · exact .registering hs (hrest w hw) rfl
    | write => exact .pending (.sparing hp.2)
    | newGuard => exact .pending (.sparing (hp _))
    | checkGuard used => exact .pending (.sparing (hp used))
    | enter => exact .pending (.sparing ((spares_call hp.1 hp.2.1).andThen hp.2.2))
  · cases hparks with
    | pause => exact .sparing hp
    | left | right => exact absurd rfl (ha _)
    | join s => exact .sparing (hp.2.2 s)
  · cases hparks with
    | pause | join => exact absurd rfl (ha _)
    | left => exact hp.1
    | right => exact hp.2.1

/-- A step of a probe that has not ended. -/
theorem leaves_asking (h : trusted.now n w q) (hT : T.Spares K) (hstates : Asking T b states)
    (hleads : Leads T.asked p) (hbusy : ¬ ∃ o, Ended p.strip o) (heq : q = T.asking p) :
    (booked K states b).Leaves (shaped (Process.Spares K)) n w q := by
  subst heq
  refine leaves_booked h (fun hruns => ?_) (fun ha hparks => ?_) fun ha hparks => ?_
  · obtain ⟨p₁, p', hawaits, rfl, hstep⟩ := T.encloses_asking.runs hbusy hruns
    exact .pending (.asking hT hstates ((hleads.trans hawaits.leads).tail (.runs hstep)) rfl)
  · obtain ⟨p₁, hawaits, ⟨left, hside, -⟩ | ⟨-, p', rfl, -, hstep⟩⟩ :=
      T.encloses_asking.parks hbusy hparks
    · exact absurd hside (ha left)
    · exact .asking hT hstates ((hleads.trans hawaits.leads).tail hstep) rfl
  · obtain ⟨p₁, hawaits, ⟨left, -, hpark⟩ | ⟨hside, -⟩⟩ := T.encloses_asking.parks hbusy hparks
    · -- a probe starts no others
      have hmute := T.mute_asked.of_leads (hleads.trans hawaits.leads)
      cases hpark with
      | pause | join => exact absurd rfl (ha _)
      | left | right => cases hmute
    · exact absurd hside.symm (ha _)

end Trait

namespace Machine

variable {K : Terms} {m m' : Machine} {past : List Machine} {place : Owner → Place}
  {b c : Owner} {p q : Process} {f : World → World}

theorem Stands.leaves (h : Stands K past c m.world p) (hfocus : m.focus = some (c, p))
    (hw : m.world.Spares K) (htrusted : Trait.trusted.now m.guards.length m.world p) :
    (Trait.booked K (past ++ [m]) c).Leaves (Trait.shaped (Process.Spares K)) m.guards.length
      m.world p := by
  cases h with
  | pending h =>
    cases h.normal hfocus with
    | acts h => exact Trait.leaves_acts htrusted hw h
    | asking hT hstates hleads hbusy heq =>
      exact Trait.leaves_asking htrusted hT hstates hleads hbusy heq
    | @selected T v o hT hstates hanswer hselect heq =>
      subst heq
      rw [T.around_run] at htrusted ⊢
      refine Trait.leaves_booked htrusted (fun hruns => ?_) nofun nofun
      cases hruns
      exact .selecting hT hstates hanswer hselect rfl
  | selecting hT _ _ hselect heq =>
    subst heq
    refine Trait.leaves_booked htrusted (fun hruns => ?_) nofun nofun
    cases hruns
    exact .pending (.sparing (hT.entered_outcome hselect hw))
  | registering hs hp heq =>
    subst heq
    refine Trait.leaves_booked htrusted (fun hruns => ?_) nofun nofun
    cases hruns
    exact .pending (.sparing hp)

/-! ## Runs -/

/-- Of every process it is known where it stands. -/
abbrev Booked (K : Terms) (past : List Machine) (m : Machine) : (Owner → Place) → Prop :=
  Assigned (Trait.booked K past) m

theorem Booked.next (h : Booked K past m place) (hw : m.world.Spares K) (hnext : Next m m') :
    ∃ place', Booked K (past ++ [m]) m' place' := by
  obtain ⟨place', hplaced, -, hold, hnew⟩ := h.placed.obeys_step hnext
    (T := Trait.booked K (past ++ [m])) (fun {b p} hrests => by
      obtain ⟨htrusted, hpending⟩ := (h.obeys b).rests hrests
      exact ⟨htrusted, hpending.snoc fun q hq => h.placed.not_rests_of_running hq hrests⟩)
    fun {c p} hfocus => by
      obtain ⟨htrusted, hstands⟩ := (h.obeys c).focus hfocus
      exact hstands.leaves hfocus hw htrusted
  refine ⟨place', hplaced, fun b => ?_⟩
  by_cases hb : ∃ left, b = .side m.joins.length left
  · obtain ⟨left, rfl⟩ := hb
    exact ⟨fun hq => ⟨((hnew left).focus hq).1, .pending (.sparing ((hnew left).focus hq).2)⟩,
      fun hq => ⟨((hnew left).rests hq).1, .sparing ((hnew left).rests hq).2⟩⟩
  · exact hold b fun left hleft => hb ⟨left, hleft⟩

/-- What a change of the state is: nothing is asked or registered, or the process of `b` asks the
containers of what was selected, in a call whose probe has been asked since it began and has
answered, or it registers something. -/
inductive Wrote (K : Terms) (past : List Machine) (m : Machine) (b : Owner)
    (f : World → World) : Prop
  | inert (hf : Inert f)
  | selects {T : Passage} {v : Json} {o : Offer} (hT : T.Spares K) (hpast : Asking T b past)
      (hanswer : Leads T.asked (.value v)) (hselect : T.choice.select v = .ok o)
      (hf : f = fun _ => (o.perform.outcome m.world).2)
  | registers {s : UpdateDispatch.Step} (hs : s.Scripted K) (hf : f m.world = s.effect m.world)

theorem Stands.wrote (h : Stands K past b m.world (.write f q))
    (hfocus : m.focus = some (b, .write f q)) : Wrote K past m b f := by
  cases h with
  | pending h =>
    cases h.normal hfocus with
    | acts h => exact .inert h.1
    | @asking T p hT hstates hleads hbusy heq =>
      obtain ⟨p', hawaits⟩ := T.encloses_asking.writes hbusy heq.symm
      cases T.mute_asked.of_leads (hleads.trans hawaits.leads) with
      | write hf _ => exact .inert hf
    | @selected T v o hT hstates hanswer hselect heq =>
      rw [T.around_run] at heq
      cases heq
  | selecting hT hpast hanswer hselect heq =>
    cases heq
    exact .selects hT hpast hanswer hselect rfl
  | registering hs hp heq =>
    cases heq
    exact .registers hs rfl

theorem Wrote.spares (h : Wrote K past m b f) (hw : m.world.Spares K) : (f m.world).Spares K := by
  cases h with
  | inert hf => exact hf.spares hw
  | @selects T v o hT _ _ hselect hf =>
    rw [hf]
    have hasks := hT.asks_perform hselect m.world hw
    generalize o.perform.outcome m.world = result at hasks
    cases hasks with
    | ok hw' _ _ | error hw' _ _ => exact hw'
  | registers hs hf =>
    obtain ⟨-, hs⟩ := hs
    rw [hf]
    exact hw.step hs

theorem Booked.spares (h : Booked K past m place) (hw : m.world.Spares K) (hnext : Next m m') :
    m'.world.Spares K := by
  rcases hnext.world with heq | ⟨b, f, q, hfocus, heq⟩
  · exact heq ▸ hw
  · rw [heq]
    exact (((h.obeys b).focus hfocus).2.wrote hfocus).spares hw

theorem booked_of_trace {w : World} {ds : List Dispatch} (hw : w.Spares K)
    (hds : ∀ d ∈ ds, d.Spares K) (hrun : Trace (ofRoots w (ds.map Dispatch.process)) past m) :
    m.world.Spares K ∧ ∃ place, Booked K past m place := by
  induction hrun with
  | nil =>
    refine ⟨hw, startPlace _, placed_ofRoots _ _, fun b => obeys_ofRoots (fun p hp => ?_) b⟩
    obtain ⟨d, hd, rfl⟩ := List.mem_map.mp hp
    exact ⟨d.dispatches.trusted _ _, .sparing (hds d hd).process⟩
  | @snoc s s' past _ hnext ih =>
    obtain ⟨hworld, place, hbooked⟩ := ih
    exact ⟨hbooked.spares hworld hnext, hbooked.next hworld hnext⟩

/-- Every change of the state in a dispatch is accounted for. -/
theorem wrote_of_trace {w : World} {ds : List Dispatch} (hw : w.Spares K)
    (hds : ∀ d ∈ ds, d.Spares K) (hrun : Trace (ofRoots w (ds.map Dispatch.process)) past m)
    (hnext : Next m m') : m'.world = m.world ∨ ∃ b f q, m.focus = some (b, .write f q) ∧
      m'.world = f m.world ∧ Wrote K past m b f := by
  obtain ⟨-, place, hbooked⟩ := booked_of_trace hw hds hrun
  refine hnext.world.imp_right ?_
  rintro ⟨b, f, q, hfocus, heq⟩
  exact ⟨b, f, q, hfocus, heq, ((hbooked.obeys b).focus hfocus).2.wrote hfocus⟩

end Machine

end UpdateDispatch
