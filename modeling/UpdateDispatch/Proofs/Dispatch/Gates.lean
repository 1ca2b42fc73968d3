import UpdateDispatch.Proofs.Dispatch.Observation
import UpdateDispatch.Proofs.Dispatch.Realms

/-!
# Gates

The link that a filter registers is a gate (`Gate.link`): it asks its probe and enters the composer
below it if it accepts the answer. Of a set of parts that only the gate leads out of
(`Gate.Closes`), the rest of a chain is made as well, and so a process that enters any other part
does so in a call of the gate that was answered and accepted.

`Gate.Stands` says where each process is: outside of all calls, asking the probe, in an accepted
call, or below a process that is in one. It is kept by every step (`Gate.Guarded.next`), and so it
holds in every run in which nothing else leads out of the parts (`Gate.guarded_of_trace`).
-/

namespace UpdateDispatch

open Relation Process

/-- The choice that a filter registers: a function of the context, whether its answer has to be
falsy instead of truthy, and the composer that is entered then. -/
structure Gate where
  probe : Probe Condition
  negated : Bool
  child : Nat

namespace Gate

variable {g : Gate} {Z : Part → Prop} {x : Nat} {next : Process} {v : Json}

/-- The link of a gate. -/
def link (g : Gate) : Link := Build.gate g.probe g.negated g.child

/-- Whether the gate opens for an answer. -/
def accepts (g : Gate) (v : Json) : Bool := v.truthy != g.negated

/-- The link that the gate enters for an answer. -/
def way (g : Gate) (v : Json) : Link := if g.accepts v then .composer g.child else .pass

/-- What the gate does with an answer. -/
def answered (g : Gate) (v : Json) (x : Nat) (next : Process) : Process :=
  .read fun w => .write (fun _ => w) <| .enter (g.way v) x next fun o => (ended o).ignored

/-- How the gate goes on when its probe has ended. -/
def after (g : Gate) (x : Nat) (next : Process) : Outcome → Process
  | .ok v => g.answered v x next
  | .error f => raised f

theorem building_way (opens : Bool) (child : Nat) (k : Link → Process) :
    building (pure (if opens then [.composer child] else [.link .pass]) >>= compose) k =
      .read fun w => .write (fun _ => w) (k (if opens then .composer child else .pass)) := by
  cases opens <;> rfl

theorem call_eq (g : Gate) (x : Nat) (next : Process) :
    g.link.call x next = .deferred ((g.probe.asked x).andThen (g.after x next)) := by
  refine congrArg (fun k => Process.deferred ((g.probe.asked x).andThen k)) (funext fun o => ?_)
  cases o with
  | error f => rfl
  | ok v => exact building_way ..

theorem has_link_iff {part : Part} :
    g.link.Has part ↔ part = .probe g.probe ∨ part = .composer g.child := by
  unfold link Build.gate
  constructor
  · rintro ⟨⟩
    next h =>
    cases h with
    | branch => exact .inl rfl
    | yes hm h =>
      rw [List.mem_singleton.mp hm] at h
      cases h
      exact .inr rfl
    | no hm h =>
      rw [List.mem_singleton.mp hm] at h
      cases h with
      | link h => cases h
  · rintro (rfl | rfl)
    · exact .lazily (.branch _ _ _ _)
    · exact .lazily (.yes (List.mem_singleton_self _) (.composer _))

/-! ## Outside and inside -/

/-- The gate stands between two parts: the first one is a composer whose chain is the gate, and the
gate leads to the second one. -/
def Between (g : Gate) (w : World) (a b : Part) : Prop :=
  ∃ id, a = .composer id ∧ w.chain id = g.link ∧ g.link.Has b

/-- The parts lead to no others but those to which the gate leads. -/
def Closes (g : Gate) (Z : Part → Prop) (w : World) : Prop :=
  ∀ ⦃a b⦄, Z a → w.Holds a b → ¬ g.Between w a b → Z b

end Gate

/-- Whatever is done for one context. -/
def Realm.about (x : Nat) : Realm where
  enters _ y := y = x
  notes _ := True
  forks := True

/-- A probe and nothing else. -/
def Realm.probing (p : Probe Condition) : Realm where
  enters _ _ := False
  notes u := p.note = some u
  forks := False

theorem Realm.lets_about (x : Nat) : (Realm.about x).Lets x fun _ => True where
  forks := trivial
  notes _ _ := trivial
  chain _ _ := rfl
  register _ _ _ _ _ := trivial
  handler _ _ _ _ := trivial
  built _ := rfl
  leaf := trivial
  resume _ := trivial
  once _ _ _ _ _ _ := trivial

theorem Realm.about_call {l : Link} {x y : Nat} {next : Process} (hy : (about x).enters l y)
    (hnext : (about x).Stays next) : (about x).Stays (l.call y next) := by
  obtain rfl : y = x := hy
  exact (lets_about y).stays_call l (fun _ _ => trivial) trivial hnext

namespace Gate

variable {g : Gate} {Z : Part → Prop} {x : Nat} {next : Process} {v : Json}

/-- What is done with parts of `Z`, and calls of the gate. Continuations are those of the context
for which they are handed on. -/
def outside (g : Gate) (Z : Part → Prop) : Realm where
  world w := g.Closes Z w
  enters l _ := l = g.link ∨ l.Within Z
  hands x next := (Realm.about x).Stays next
  notes u := ∃ part, Z part ∧ part.Notes u
  forks := True

theorem lets_outside (g : Gate) (Z : Part → Prop) (x : Nat) : (g.outside Z).Lets x Z where
  forks := trivial
  notes hpart hu := ⟨_, hpart, hu⟩
  chain {id w} hid hw := by
    by_cases hgate : w.chain id = g.link
    · exact .inl hgate
    · refine .inr fun part hpart => hw hid (.chain hpart) ?_
      rintro ⟨_, ⟨⟩, hchain, -⟩
      exact hgate hchain
  register hname hw hfind part hpart := hw hname (.register hfind hpart) fun ⟨_, h, _⟩ => nomatch h
  handler hid hw hb hs := by
    refine hw hid (.handler hb hs) fun ⟨_, _, _, h⟩ => ?_
    rcases has_link_iff.mp h with h | h <;> cases h
  built := .inr
  leaf := trivial
  resume mark := Realm.stays_resume mark
  once guard _ _ _ hhands _ := (Realm.about_call rfl hhands).once guard

theorem stays_answered {R : Realm} (henters : R.enters (g.way v) x) (hhands : R.hands x next)
    (hnext : R.Stays next) : R.Stays (g.answered v x next) := by
  intro w _
  have henter : R.Stays (.enter (g.way v) x next fun o => (ended o).ignored) :=
    ⟨henters, hhands, hnext, fun o => (Realm.stays_ended o).ignored⟩
  exact henter.write ⟨w, rfl⟩

/-- If an answer is not accepted, or the composer below is among the parts, the gate leads nowhere
else. -/
theorem outside_answered (hv : ¬ (g.accepts v = true ∧ ¬ Z (.composer g.child)))
    (hhands : (Realm.about x).Stays next) (hnext : (g.outside Z).Stays next) :
    (g.outside Z).Stays (g.answered v x next) := by
  refine stays_answered (.inr ?_) hhands hnext
  unfold way
  split
  · next haccepts =>
    rintro _ ⟨⟩
    by_contra hchild
    exact hv ⟨haccepts, hchild⟩
  · exact Link.within_pass

theorem answered_not_ended {o : Outcome} : ¬ Ended (g.answered v x next).strip o := nofun

end Gate

/-- A call of a gate: whose process makes it, for which context and with which continuation, and how
that process goes on afterwards. -/
structure Visit where
  owner : Owner
  x : Nat
  next : Process
  k : Outcome → Process

namespace Visit

/-- What asks the probe of the gate, in a call of it. -/
def probing (V : Visit) (g : Gate) (p : Process) : Process :=
  (p.andThen (g.after V.x V.next)).andThen V.k

/-- What the gate leads to, in a call of it. -/
def passing (V : Visit) (p : Process) : Process := p.andThen V.k

end Visit

/-! ## Steps within others -/

namespace Trait

open Machine (Runs Parks)

/-- Processes that are trusted and have a certain form. -/
def shaped (S : Process → Prop) : Trait where
  now n w p := trusted.now n w p ∧ S p
  later n marks p := trusted.later n marks p ∧ S p
  mono h hn hm := ⟨trusted.mono h.1 hn hm, h.2⟩
  of_later h := ⟨trusted.of_later h.1, h.2⟩

variable {S S' : Process → Prop} {R : Realm} {F : Process → Process} {Stop : Process → Prop}
  {n : Nat} {w : World} {p : Process}

theorem leaves_shaped (h : trusted.now n w p)
    (hruns : ∀ {n' w' q}, Runs n w p n' w' q → S q)
    (hparks : ∀ {j a q}, (∀ left, a ≠ .side j left) → Parks j a p a q → S q)
    (hsides : ∀ {j a left q}, (∀ left, a ≠ .side j left) → Parks j a p (.side j left) q → S' q) :
    (shaped S).Leaves (shaped S') n w p := by
  have hleaves := upheld_sound _ h
  exact ⟨fun hstep => ⟨⟨(hleaves.runs hstep).1, hruns hstep⟩, (hleaves.runs hstep).2⟩,
    fun ha hstep => ⟨hleaves.parks ha hstep, hparks ha hstep⟩,
    fun ha hstep => ⟨hleaves.sides ha hstep, hsides ha hstep⟩, hleaves.starts⟩

/-- A process that stays in a realm, inside of another one and until it stops. -/
theorem leaves_staying (hF : Encloses F Stop) (hstop : ¬ Stop p) (h : trusted.now n w (F p))
    (hw : R.world w) (hp : R.Stays p)
    (hcall : ∀ {l x next}, R.enters l x → R.Stays next → R.Stays (l.call x next))
    (hS : ∀ {q}, Leads p q → R.Stays q → S (F q))
    (hS' : R.forks → ∀ {j a left q}, (∀ left, a ≠ .side j left) → Parks j a (F p) (.side j left) q →
      R.Stays q → S' q) : (shaped S).Leaves (shaped S') n w (F p) := by
  have hawaited : ∀ {q}, Awaits p q → R.Stays q := fun hawaits => hp.of_awaits hawaits
  refine leaves_shaped h (fun hstep => ?_) (fun ha hstep => ?_) fun ha hstep => ?_
  · obtain ⟨p₁, q, hawaits, rfl, hruns⟩ := hF.runs hstop hstep
    refine hS (hawaits.leads.tail (.runs hruns)) ((hawaited hawaits).of_runs hw ?_ hruns)
    rintro l x next k rfl
    exact hcall (hawaited hawaits).1 (hawaited hawaits).2.2.1
  · obtain ⟨p₁, hawaits, ⟨left, hside, -⟩ | ⟨-, q, rfl, hparks, hstep⟩⟩ := hF.parks hstop hstep
    · exact absurd hside (ha left)
    · exact hS (hawaits.leads.tail hstep) ((hawaited hawaits).of_parks hparks)
  · obtain ⟨p₁, hawaits, ⟨left', hside, hparks⟩ | ⟨hside, -⟩⟩ := hF.parks hstop hstep
    · exact hS' ((hawaited hawaits).forks_of_parks ha hparks) ha hstep
        ((hawaited hawaits).of_parks hparks)
    · exact absurd hside.symm (ha _)

end Trait

namespace Machine

theorem Obeys.shaped {S S' : Process → Prop} {m : Machine} {place : Owner → Place}
    {b : Owner} (h : Obeys (Trait.shaped S) m place b)
    (hS : ∀ {q}, S q → S' q) : Obeys (Trait.shaped S') m place b :=
  ⟨fun hq => ⟨(h.focus hq).1, hS (h.focus hq).2⟩, fun hq => ⟨(h.rests hq).1, hS (h.rests hq).2⟩⟩

end Machine

namespace Gate

open Machine

variable {g : Gate} {Z : Part → Prop} {V : Visit} {m m' : Machine} {place : Owner → Place}
  {states past : List Machine} {a b c : Owner} {p q : Process} {v : Json} {base : Nat}

/-! ## Admits of a gate -/

/-- In these states the gate was reached, and since then its probe is asked. -/
inductive Asking (g : Gate) (V : Visit) : List Machine → Prop
  | mk {before during : List Machine} {r : Machine}
      (hreach : r.focus = some (V.owner, .enter g.link V.x V.next V.k))
      (hasking : Keeps V.owner (V.probing g) (Leads (g.probe.asked V.x)) during) :
      Asking g V (before ++ r :: during)

/-- In these states the gate was reached, its probe was asked and has answered, the answer was
accepted, and since then the call goes on. The number is that of the joins by then. -/
inductive Opened (g : Gate) (V : Visit) (v : Json) : Nat → List Machine → Prop
  | mk {before asking during : List Machine} {r e : Machine}
      (hreach : r.focus = some (V.owner, .enter g.link V.x V.next V.k))
      (hasking : Keeps V.owner (V.probing g) (Leads (g.probe.asked V.x)) asking)
      (hanswer : EndsAt V.owner V.passing (g.after V.x V.next) (g.probe.asked V.x) e (.ok v))
      (haccepts : g.accepts v = true)
      (hcalling : Keeps V.owner V.passing (Leads (g.answered v V.x V.next)) (e :: during)) :
      Opened g V v e.joins.length (before ++ r :: (asking ++ e :: during))

theorem Asking.snoc (h : Asking g V states)
    (hm : ∀ q, m.focus = some (V.owner, q) →
      ∃ p, q = V.probing g p ∧ Leads (g.probe.asked V.x) p) : Asking g V (states ++ [m]) := by
  cases h with
  | mk hreach hasking =>
    rw [List.append_assoc, List.cons_append]
    exact .mk hreach (hasking.snoc hm)

theorem Opened.snoc (h : Opened g V v base states)
    (hm : ∀ q, m.focus = some (V.owner, q) →
      ∃ p, q = V.passing p ∧ Leads (g.answered v V.x V.next) p) :
    Opened g V v base (states ++ [m]) := by
  cases h with
  | mk hreach hasking hanswer haccepts hcalling =>
    rw [List.append_assoc, List.cons_append, List.append_assoc, List.cons_append]
    exact .mk hreach hasking hanswer haccepts (hcalling.snoc hm)

/-- The probe has given an answer that is accepted. -/
theorem Asking.opened (h : Asking g V (past ++ [m]))
    (hanswer : EndsAt V.owner V.passing (g.after V.x V.next) (g.probe.asked V.x) m (.ok v))
    (haccepts : g.accepts v = true) : Opened g V v m.joins.length (past ++ [m]) := by
  generalize hstates : past ++ [m] = states at h
  cases h with
  | @mk before during r hreach hasking =>
    rcases during.eq_nil_or_concat' with rfl | ⟨asking, e, rfl⟩
    · obtain ⟨-, hr⟩ := List.append_inj' hstates rfl
      cases hr
      rw [hanswer.focus] at hreach
      cases hreach
    · rw [← List.cons_append, ← List.append_assoc] at hstates
      obtain ⟨-, hr⟩ := List.append_inj' hstates rfl
      cases hr
      refine .mk hreach (fun s hs => hasking s (List.mem_append_left _ hs)) hanswer haccepts ?_
      intro s hs q hq
      rw [List.mem_singleton.mp hs, hanswer.focus] at hq
      cases hq
      exact ⟨_, rfl, .refl⟩

/-- A call of the gate that was accepted, and that leads to parts to which nothing else leads. -/
structure Admits (g : Gate) (Z : Part → Prop) (V : Visit) (v : Json) (base : Nat)
    (states : List Machine) (m : Machine) : Prop where
  opened : Opened g V v base states
  base_le : base ≤ m.joins.length
  born : ∀ {j left}, V.owner = .side j left → j < base
  beyond : ¬ Z (.composer g.child)

theorem Admits.next (h : Admits g Z V v base states m) (hnext : Next m m') :
    Admits g Z V v base states m' :=
  ⟨h.opened, Nat.le_trans h.base_le hnext.joins_le, h.born, h.beyond⟩

/-- Where the process of `b` stands, after the given states: outside of all calls of the gate, in
one that asks the probe, in one that was accepted, or below the process of such a one. In the calls
the inner process has the property `S`. -/
inductive Stands (g : Gate) (Z : Part → Prop) (S : Process → Prop) (states : List Machine)
    (m : Machine) (b : Owner) : Process → Prop
  | outside {q : Process} (h : (g.outside Z).Stays q) : Stands g Z S states m b q
  | asking {V : Visit} {p : Process} (howner : V.owner = b) (hasking : Asking g V states)
      (hleads : Leads (g.probe.asked V.x) p) (hstays : (Realm.probing g.probe).Stays p) (hS : S p)
      (habout : (Realm.about V.x).Stays V.next) (hnext : (g.outside Z).Stays V.next)
      (hk : ∀ o, (g.outside Z).Stays (V.k o)) : Stands g Z S states m b (V.probing g p)
  | calling {V : Visit} {v : Json} {base : Nat} {p : Process} (howner : V.owner = b)
      (hcall : Admits g Z V v base states m) (hleads : Leads (g.answered v V.x V.next) p)
      (hstays : (Realm.about V.x).Stays p) (hS : S p) (hk : ∀ o, (g.outside Z).Stays (V.k o)) :
      Stands g Z S states m b (V.passing p)
  | below {V : Visit} {v : Json} {base : Nat} {q : Process}
      (hcall : Admits g Z V v base states m) (hbelow : Below base m V.owner b)
      (hne : b ≠ V.owner) (hstays : (Realm.about V.x).Stays q) : Stands g Z S states m b q

theorem Stands.next {S : Process → Prop} (h : Stands g Z S states m b q) (hnext : Next m m') :
    Stands g Z S states m' b q := by
  cases h with
  | outside h => exact .outside h
  | asking howner hasking hleads hstays hS habout hn hk =>
    exact .asking howner hasking hleads hstays hS habout hn hk
  | calling howner hcall hleads hstays hS hk =>
    exact .calling howner (hcall.next hnext) hleads hstays hS hk
  | below hcall hbelow hne hstays =>
    exact .below (hcall.next hnext) (hbelow.next hnext) hne hstays

/-- One more state is passed, in which the process is the one that stands there if it runs, and
those above it do not run. -/
theorem Stands.snoc {S : Process → Prop} (h : Stands g Z S states m b q)
    (hb : ∀ q', m.focus = some (b, q') → q' = q)
    (habove : ∀ {base a q'}, Below base m a b → b ≠ a → m.focus ≠ some (a, q')) :
    Stands g Z S (states ++ [m]) m b q := by
  cases h with
  | outside h => exact .outside h
  | @asking V p howner hasking hleads hstays hS habout hn hk =>
    subst howner
    exact .asking rfl (hasking.snoc fun q hq => ⟨p, hb q hq, hleads⟩) hleads hstays hS habout hn hk
  | @calling V v base p howner hcall hleads hstays hS hk =>
    subst howner
    have hopened := hcall.opened.snoc fun q hq => ⟨p, hb q hq, hleads⟩
    exact .calling rfl { hcall with opened := hopened } hleads hstays hS hk
  | below hcall hbelow hne hstays =>
    have hopened := hcall.opened.snoc fun q hq => absurd hq (habove hbelow hne)
    exact .below { hcall with opened := hopened } hbelow hne hstays

/-- A call of the probe or of the gate that has ended is none any more. -/
theorem Stands.normal (h : Stands g Z (fun _ => True) (past ++ [m]) m c q)
    (hfocus : m.focus = some (c, q)) (hborn : ∀ {j left}, c = .side j left → j < m.joins.length) :
    Stands g Z (fun p => ¬ ∃ o, Ended p.strip o) (past ++ [m]) m c q := by
  cases h with
  | outside h => exact .outside h
  | below hcall hbelow hne hstays => exact .below hcall hbelow hne hstays
  | @calling V v base p howner hcall hleads hstays _ hk =>
    by_cases hend : ∃ o, Ended p.strip o
    · obtain ⟨o, ho⟩ := hend
      have hq : V.passing p = V.k o := by
        rw [Visit.passing, ← strip_andThen, strip_eq_of_ended ho]
        cases o <;> rfl
      exact hq ▸ .outside (hk o)
    · exact .calling howner hcall hleads hstays hend hk
  | @asking V p howner hasking hleads hstays _ habout hnext hk =>
    subst howner
    by_cases hend : ∃ o, Ended p.strip o
    · obtain ⟨o, ho⟩ := hend
      have hanswer : EndsAt V.owner V.passing (g.after V.x V.next) (g.probe.asked V.x) m o :=
        endsAt_of_stopped hfocus hleads ho
      obtain ⟨-, hq⟩ := Prod.mk.inj (Option.some.inj (hfocus.symm.trans hanswer.focus))
      rw [hq]
      cases o with
      | error f => exact .outside (hk (.error f))
      | ok v =>
        by_cases hopens : g.accepts v = true ∧ ¬ Z (.composer g.child)
        · refine .calling rfl ⟨hasking.opened hanswer hopens.1, Nat.le_refl _, hborn, hopens.2⟩
            .refl ?_ (fun ⟨o, ho⟩ => answered_not_ended ho) hk
          exact stays_answered rfl trivial habout
        · exact .outside ((outside_answered hopens habout hnext).andThen hk)
    · exact .asking rfl hasking hleads hstays hend habout hnext hk

/-- A side that a process inside a call starts is below that of the call. -/
theorem Admits.started (h : Admits g Z V v base states m) (hbelow : Below base m V.owner c)
    (hnext : Next m m') (hfocus : m.focus = some (c, p)) {j : Nat} {a : Owner} {side : Bool}
    (ha : ∀ left, a ≠ .side j left) (hparks : Parks j a p (.side j side) q) (left : Bool)
    (hstays : (Realm.about V.x).Stays q) :
    Stands g Z (fun _ => True) states m' (.side m.joins.length left) q := by
  obtain ⟨J, hJ, rfl⟩ : ∃ J, m'.joins[m.joins.length]? = some J ∧ J.owner = c := by
    rw [hnext.eq_advance hfocus]
    cases hparks with
    | left | right => exact ⟨_, List.getElem?_concat_length, rfl⟩
    | pause | join s => exact absurd rfl (ha side)
  refine .below (h.next hnext) (.side left h.base_le hJ (hbelow.next hnext)) ?_ hstays
  intro howner
  exact absurd (h.born howner.symm) (Nat.not_lt.mpr h.base_le)

/-- Where a process stands, it stands after its next step, or in another place for a call that it
begins or leaves. What it starts stands below it. -/
theorem Stands.leaves (h : Stands g Z (fun _ => True) (past ++ [m]) m c p)
    (hplaced : Placed m place) (hfocus : m.focus = some (c, p)) (hw : g.Closes Z m.world)
    (htrusted : Trait.trusted.now m.guards.length m.world p) (hnext : Next m m') :
    (Trait.shaped (Stands g Z (fun _ => True) (past ++ [m]) m c)).Leaves
      (Trait.shaped fun q => ∀ left,
        Stands g Z (fun _ => True) (past ++ [m]) m' (.side m.joins.length left) q)
      m.guards.length m.world p := by
  have hrunning : place c ≠ .gone := by
    rw [hplaced.running hfocus]
    exact nofun
  cases h.normal hfocus fun heq => hplaced.born hrunning heq with
  | outside h =>
    by_cases hgate : ∃ x next k, p = .enter g.link x next k
    · obtain ⟨x, next, k, rfl⟩ := hgate
      refine Trait.leaves_shaped htrusted (fun hruns => ?_) nofun nofun
      cases hruns with
      | enter =>
        rw [g.call_eq]
        exact .asking (V := ⟨c, x, next, k⟩) rfl (.mk hfocus keeps_nil) .refl
          (Realm.stays_asked (fun _ hu => hu) x) trivial h.2.1 h.2.2.1 h.2.2.2
    · refine Trait.leaves_shaped htrusted (fun hruns => .outside (h.of_runs hw ?_ hruns))
        (fun _ hparks => .outside (h.of_parks hparks))
        fun _ hparks _ => .outside (h.of_parks hparks)
      rintro l x next k rfl
      have hl : l.Within Z := h.1.resolve_left fun hl => hgate ⟨x, next, k, by rw [hl]⟩
      exact (lets_outside g Z x).stays_call l hl h.2.1 h.2.2.1
  | @asking V p howner hasking hleads hstays hend habout hn hk =>
    have hF : Encloses (V.probing g) fun p => ∃ o, Ended p.strip o :=
      (Surrounds.andThen V.k .hole).encloses_await _
    refine Trait.leaves_staying hF hend htrusted trivial hstays (fun h _ => h.elim)
      (fun hlater hq => ?_) fun h => h.elim
    exact .asking howner hasking (hleads.trans hlater) hq trivial habout hn hk
  | @calling V v base p howner hcall hleads hstays hend hk =>
    have hF : Encloses V.passing fun p => ∃ o, Ended p.strip o := Surrounds.hole.encloses_await _
    refine Trait.leaves_staying hF hend htrusted trivial hstays
      Realm.about_call (fun hlater hq => ?_)
      fun _ {j a side q} ha hparks hq left =>
        hcall.started (howner ▸ .self) hnext hfocus ha hparks left hq
    exact .calling howner hcall (hleads.trans hlater) hq trivial hk
  | @below V v base p hcall hbelow hne hstays =>
    exact Trait.leaves_staying encloses_alone (fun h => h.elim) htrusted trivial hstays
      Realm.about_call (fun _ hq => .below hcall hbelow hne hq)
      fun _ {j a side q} ha hparks hq left =>
        hcall.started hbelow hnext hfocus ha hparks left hq

/-! ## Runs -/

/-- After the states `past`, the process of every owner stands somewhere. -/
abbrev Guarded (g : Gate) (Z : Part → Prop) (past : List Machine) (m : Machine) :
    (Owner → Place) → Prop :=
  Assigned (fun b => Trait.shaped (Stands g Z (fun _ => True) (past ++ [m]) m b)) m

theorem Guarded.next (h : Guarded g Z past m place) (hw : g.Closes Z m.world)
    (hnext : Next m m') : ∃ place', Guarded g Z (past ++ [m]) m' place' := by
  obtain ⟨place', hplaced, -, hold, hnew⟩ :=
    h.placed.obeys_next hnext h.obeys fun {c p} hfocus => by
      obtain ⟨htrusted, hstands⟩ := (h.obeys c).focus hfocus
      exact hstands.leaves h.placed hfocus hw htrusted hnext
  refine ⟨place', hplaced, fun b => ?_⟩
  have hobeys :
      Obeys (Trait.shaped (Stands g Z (fun _ => True) (past ++ [m]) m' b)) m' place' b := by
    by_cases hb : ∃ left, b = .side m.joins.length left
    · obtain ⟨left, rfl⟩ := hb
      exact (hnew left).shaped fun h => h left
    · exact (hold b fun left hleft => hb ⟨left, hleft⟩).shaped fun h => h.next hnext
  refine ⟨fun {q} hq => ⟨(hobeys.focus hq).1, (hobeys.focus hq).2.snoc ?_ ?_⟩,
    fun {q} hq => ⟨(hobeys.rests hq).1, (hobeys.rests hq).2.snoc ?_ ?_⟩⟩
  · intro q' hq'
    rw [hq] at hq'
    cases hq'
    rfl
  · intro base a q' _ hne hq'
    rw [hq] at hq'
    cases hq'
    exact hne rfl
  · exact fun q' hq' => absurd hq (hplaced.not_rests_of_running hq')
  · intro base a q' hbelow hne hq'
    exact absurd hq (hplaced.not_rests_of_gone (hplaced.gone_of_below hq' hbelow hne))

theorem guarded_ofRoots {w : World} {ds : List Dispatch}
    (hds : ∀ d ∈ ds, ∀ ⦃part⦄, d.Starts part → Z part) :
    ∃ place, Guarded g Z [] (ofRoots w (ds.map Dispatch.process)) place := by
  refine ⟨startPlace _, placed_ofRoots _ _, fun b => obeys_ofRoots (fun p hp => ?_) b⟩
  obtain ⟨d, hd, rfl⟩ := List.mem_map.mp hp
  exact ⟨d.dispatches.trusted _ _,
    .outside (Dispatch.stays_process (lets_outside g Z) (hds d hd))⟩

theorem guarded_of_trace {w : World} {ds : List Dispatch}
    (hds : ∀ d ∈ ds, ∀ ⦃part⦄, d.Starts part → Z part)
    (hrun : Trace (ofRoots w (ds.map Dispatch.process)) past m)
    (hw : ∀ s ∈ past, g.Closes Z s.world) : ∃ place, Guarded g Z past m place := by
  induction hrun with
  | nil => exact guarded_ofRoots hds
  | @snoc s s' past _ hnext ih =>
    obtain ⟨place, hguarded⟩ := ih fun s hs => hw s (List.mem_append_left _ hs)
    exact hguarded.next (hw s (by simp)) hnext

end Gate

end UpdateDispatch
