import UpdateDispatch.Proofs.Dispatch.Closed
import UpdateDispatch.Proofs.Dispatch.Filters
import UpdateDispatch.Proofs.Dispatch.Responses

/-!
# Middleware that runs on a condition

There are five ways to register middleware that runs only where a function of the context holds: as
a filter, as what is dropped where the opposite holds, as one branch of two, by a factory that gives
no middleware otherwise, and by a router that gives no key otherwise (`Conditional`). The links that
they register are different ones, but each asks the function once and goes on with the middleware or
passes (`Conditional.pick_eq`), and so all that comes later is the same
(`conditionals_respond_alike`).

What they return is not the same: a filter returns the composer that holds the middleware, and a
branch the composer that chooses. It must not be put to use (`filter_returns_middleware`).
-/

namespace UpdateDispatch

open Process

/-! ## Functions of the context -/

namespace Probe

variable {C : Type}

/-- The function that has one value where another one holds, and a second value elsewhere. -/
def choosing (yes no : Json) (p : Probe C) : Probe C :=
  { p with
    reading := match p.reading with
      | some (y, n) => some (if y.truthy then yes else no, if n.truthy then yes else no)
      | none => some (yes, no) }

variable {yes no : Json}

theorem reads_choosing (p : Probe Condition) (v : Json) :
    (p.choosing yes no).reads v = if (p.reads v).truthy then yes else no := by
  unfold choosing reads
  rcases p.reading with _ | ⟨y, n⟩
  · rfl
  · dsimp only
    split <;> rfl

/-- What follows the answer of a function gets one value or the other. -/
def chosen (yes no : Json) (k : Outcome → Process) : Outcome → Process
  | .ok v => k (.ok (if v.truthy then yes else no))
  | .error f => k (.error f)

theorem answer_choosing (p : Probe Condition) (x : Nat) (k : Outcome → Process) :
    ((p.choosing yes no).answer x).andThen k = (p.answer x).andThen (chosen yes no k) := by
  have hsource : (p.choosing yes no).source = p.source := rfl
  have hvalue : ∀ v, (Process.value ((p.choosing yes no).reads v)).andThen k =
      (Process.value (p.reads v)).andThen (chosen yes no k) := fun v => by
    simp only [Process.andThen, reads_choosing, chosen]
  unfold answer
  rw [hsource]
  split
  · refine congrArg Process.read (funext fun w => ?_)
    dsimp only
    split
    · exact congrArg (Process.write _) (hvalue _)
    · rfl
  · exact hvalue _
  · refine congrArg Process.read (funext fun w => ?_)
    dsimp only
    split
    · split <;> exact hvalue _
    · rfl

theorem asked_andThen (p : Probe Condition) (x : Nat) (k : Outcome → Process) :
    (p.asked x).andThen k = pauses p.delay (p.noted ((p.result x).andThen k)) := by
  unfold asked
  induction p.delay with
  | zero =>
    change (p.noted (p.result x)).andThen k = p.noted ((p.result x).andThen k)
    unfold noted
    split <;> rfl
  | succ n ih => exact congrArg Process.pause ih

theorem result_choosing (p : Probe Condition) (x : Nat) (k : Outcome → Process) :
    ((p.choosing yes no).result x).andThen k = (p.result x).andThen (chosen yes no k) := by
  have hthrows : (p.choosing yes no).throws = p.throws := rfl
  unfold result
  rw [hthrows]
  split
  · rfl
  · exact answer_choosing p x k

/-- The function is asked as the other one is, and what follows gets one value or the other. -/
theorem ask_choosing (p : Probe Condition) (x : Nat) (k : Json → Process) :
    (p.choosing yes no).ask x k = p.ask x fun v => k (if v.truthy then yes else no) := by
  rw [ask_eq, ask_eq, asked_andThen, asked_andThen, result_choosing]
  refine congrArg (fun k => pauses p.delay (p.noted ((p.result x).andThen k))) (funext fun o => ?_)
  cases o <;> rfl

theorem outcome_build_choosing (p : Probe Listener) {q : Probe Condition} {w : World}
    (h : (p.build.outcome w).1 = .ok q) :
    (p.choosing yes no).build.outcome w = (.ok (q.choosing yes no), w) := by
  obtain ⟨delay, note, throws, l | v | ⟨name, equals⟩, reading⟩ := p
  · rcases hl : l.condition with f | condition
    · simp only [build, hl] at h
      cases h
    · simp only [build, hl] at h
      cases h
      simp only [build, choosing, hl]
      rfl
  · cases h
    rfl
  · cases h
    rfl

end Probe

/-! ## Registrations -/

/-- A function or a composer, which is no container. -/
def Middleware.IsCallable : Middleware → Prop
  | .link _ | .composer _ => True
  | .container _ _ | .other _ => False

theorem exists_flatten {m : Middleware} (h : m.IsCallable) : ∃ l, m.flatten = pure l := by
  cases m with
  | link l => exact ⟨l, rfl⟩
  | composer id => exact ⟨.composer id, rfl⟩
  | container name l | other v => exact h.elim

theorem exists_composeAfter {ms : List Middleware} (h : ∀ m ∈ ms, m.IsCallable) (first : Link) :
    ∃ l, composeAfter first ms = pure l := by
  induction ms generalizing first with
  | nil => exact ⟨first, rfl⟩
  | cons m rest ih =>
    obtain ⟨hm, hrest⟩ := List.forall_mem_cons.mp h
    obtain ⟨l, hl⟩ := exists_flatten hm
    rw [composeAfter, hl, pure_bind]
    exact ih hrest _

/-- Functions and composers have a chain, whatever the state. -/
theorem exists_compose {ms : List Middleware} (h : ∀ m ∈ ms, m.IsCallable) :
    ∃ l, compose ms = pure l := by
  cases ms with
  | nil => exact ⟨.pass, rfl⟩
  | cons m rest =>
    obtain ⟨hm, hrest⟩ := List.forall_mem_cons.mp h
    obtain ⟨l, hl⟩ := exists_flatten hm
    rw [compose, hl, pure_bind]
    exact exists_composeAfter hrest l

/-- The ways to register middleware that runs only where a function of the context holds. -/
inductive Conditional where
  | filter
  | branch
  | drop
  | lazily
  | route
  deriving DecidableEq

/-- The state with more composers. -/
def World.adding (cs : List Composer) (w : World) : World :=
  { w with composers := w.composers ++ cs }

@[simp] theorem World.adding_nil (w : World) : w.adding [] = w := by
  rw [adding, List.append_nil]

namespace Conditional

/-- The registration of middleware that runs where `p` holds. -/
def registration (p : Probe Listener) (es : List Expr) : Conditional → Registration
  | filter => .filter p es
  | branch => .branch p (.many es) (.many [])
  | drop => .drop (p.choosing (.bool false) (.bool true)) es
  | lazily => .lazily (p.choosing (.str "k") .null) [("k", .many es)] (.many [])
  | route => .route (p.choosing (.str "k") .null) [(.str "k", .many es)] (.one .pass)

/-- The choice that is registered, where a new composer holds the middleware if it is nested. -/
def choice (q : Probe Condition) (es : List Expr) (ms : List Middleware) (child : Nat) :
    Conditional → Choice
  | filter => .branch q false [.composer child] [.link .pass]
  | branch => .branch q false ms []
  | drop => .branch (q.choosing (.bool false) (.bool true)) true [.composer child] [.link .pass]
  | lazily => .table (q.choosing (.str "k") .null) [("k", .many es)] (.many [])
  | route => .route (q.choosing (.str "k") .null) [(.str "k", some ms)] [.link .pass]

/-- Whether a new composer holds the middleware. -/
def nested : Conditional → Bool
  | filter | drop => true
  | branch | lazily | route => false

/-- The new composers that hold the middleware, whose chain is `l`. -/
def below (l : Link) (f : Conditional) : List Composer := if f.nested then [{ chain := l }] else []

/-- The link that is entered where the function holds. -/
def way (l : Link) (child : Nat) (f : Conditional) : Link :=
  if f.nested then .composer child else l

/-- What is run where the function holds. -/
def opened (es : List Expr) (ms : List Middleware) (child : Nat) :
    Conditional → Build (List Middleware)
  | filter | drop => pure [.composer child]
  | branch | route => pure ms
  | lazily => buildAll es

/-- What is run elsewhere. -/
def shut : Conditional → Build (List Middleware)
  | filter | drop | route => pure [.link .pass]
  | branch | lazily => pure []

variable {p : Probe Listener} {q : Probe Condition} {es : List Expr} {ms : List Middleware}
  {child : Nat} {l : Link} {w : World}

/-- Whatever was registered asks the function once for each context, and goes on as it answers. -/
theorem pick_eq (f : Conditional) (x : Nat) (k : Build (List Middleware) → Process) :
    (f.choice q es ms child).pick x k =
      q.ask x fun v => k (if v.truthy then f.opened es ms child else f.shut) := by
  cases f <;> simp only [choice, Choice.pick, Probe.ask_choosing] <;>
    refine congrArg (q.ask x) (funext fun v => ?_) <;> cases v.truthy <;> rfl

theorem compose_shut (f : Conditional) : f.shut >>= compose = pure .pass := by
  cases f <;> rfl

/-- The state after the registration. -/
def after (q : Probe Condition) (es : List Expr) (ms : List Middleware) (l : Link) (id : Nat)
    (w : World) (f : Conditional) : World :=
  (w.adding (f.below l)).hook id (.lazily (f.choice q es ms w.composers.length))

theorem after_of_nested {f : Conditional} (hf : f.nested = true) (id : Nat) :
    f.after q es ms l id w =
      (w.adding [{ chain := l }]).hook id (.lazily (f.choice q es ms w.composers.length)) := by
  rw [after, below, if_pos hf]

theorem after_of_not_nested {f : Conditional} (hf : f.nested = false) (id : Nat) :
    f.after q es ms l id w = w.hook id (.lazily (f.choice q es ms w.composers.length)) := by
  rw [after, below, hf, if_neg Bool.false_ne_true, World.adding_nil]

/-- The registration succeeds. -/
theorem outcome_registration (hp : (p.build.outcome w).1 = .ok q)
    (hes : (buildAll es).outcome w = (.ok ms, w)) (hl : compose ms = pure l) (id : Nat)
    (f : Conditional) : (Build.register id (f.registration p es)).outcome w =
      (.ok w.composers.length, f.after q es ms l id w) := by
  have hprobe : p.build.outcome w = (.ok q, w) := by rw [Build.outcome_probe p w w, hp]
  have hcompose : (compose ms).outcome w = (.ok l, w) := by
    rw [hl]
    rfl
  cases f with
  | filter =>
    simp only [registration, Build.register, Build.outcome_bind, hes, hprobe, Build.outcome_filter,
      hcompose]
    rfl
  | drop =>
    simp only [registration, Build.register, Build.outcome_bind, hes,
      Probe.outcome_build_choosing p hp, Build.outcome_filter, hcompose]
    rfl
  | branch =>
    simp only [registration, Build.register, Spec.build, Build.outcome_bind, hes, hprobe,
      after_of_not_nested (f := branch) rfl]
    rfl
  | lazily =>
    simp only [registration, Build.register, Build.outcome_bind, Probe.outcome_build_choosing p hp,
      after_of_not_nested (f := lazily) rfl]
    rfl
  | route =>
    simp only [registration, Build.register, Build.outcome_bind, Probe.outcome_build_choosing p hp,
      Build.handlersOf, Spec.buildChoice, hes, after_of_not_nested (f := route) rfl]
    rfl

end Conditional

/-! ## Two variants of a choice -/

namespace Variants

variable {V : Variants} {b : World} {l : Link} {id : Nat}

/-- A state without unknown composers stands in two variants that have its composers. -/
theorem stores_adding (hb : b.Closed) (hshared : V.shared = b.composers.length) :
    V.Stores (b.adding V.left) (b.adding V.right) := by
  have hself : ∀ {l : Link}, l.Within b.Knows → Link.Same V.Composers l l := fun hl =>
    Link.same_self _ fun id hid => .inl ⟨hshared ▸ hl hid id rfl, rfl⟩
  have hlength : ∀ cs, (b.adding cs).composers.length = V.shared + cs.length := fun cs => by
    rw [World.adding, List.length_append, hshared]
  have hadded : ∀ (cs : List Composer) j, (b.adding cs).composers[V.shared + j]? = cs[j]? :=
    fun cs j => by
      rw [World.adding, hshared, List.getElem?_append_right (Nat.le_add_right _ _),
        Nat.add_sub_cancel_left]
  refine ⟨fun {i i'} hi => ?_, ⟨0, hlength V.left, hlength V.right⟩, fun {j c} hj => ?_,
    fun {j c} hj => ?_, ?_, rfl⟩
  · rcases hi with ⟨hlt, rfl⟩ | ⟨k, rfl, rfl⟩
    · rw [World.adding, World.adding, List.getElem?_append_left (hshared ▸ hlt),
        List.getElem?_append_left (hshared ▸ hlt), List.getElem?_eq_getElem (hshared ▸ hlt)]
      refine .some ⟨.same (hself (hb.chains _ (List.getElem_mem _))), ?_⟩
      rcases b.composers[i'].bot with _ | bot
      · exact .none
      · exact .some (.refl bot)
    · rw [List.getElem?_eq_none (by rw [hlength]; omega),
        List.getElem?_eq_none (by rw [hlength]; omega)]
      exact .none
  · rw [hadded, hj]
  · rw [hadded, hj]
  · exact List.forall₂_same.mpr fun r hr =>
      ⟨rfl, r.2.same_self fun id hid => .inl ⟨hshared ▸ hb.registers r hr hid id rfl, rfl⟩⟩

/-- Links that stand for each other are hooked to the same composer. -/
theorem stores_hook (hb : b.Closed) (hshared : V.shared = b.composers.length)
    (hid : id < V.shared) {l l' : Link} (hl : V.alike l l') :
    V.Stores ((b.adding V.left).hook id l) ((b.adding V.right).hook id l') := by
  have hstores := stores_adding hb hshared
  have hnew : V.Same { chain := l } { chain := l' } := ⟨.alike hl, .none⟩
  exact (hstores.addComposer hnew).modifyComposer (.inl ⟨hid, rfl⟩) fun _ _ hc =>
    hc.append (.composer (.inr hstores.lengths))

/-- What is composed of two lists of middleware is entered for each other, in states that look the
same. -/
def Opens (V : Variants) (mw mw' : Build (List Middleware)) : Prop :=
  ∀ N s s', V.Exact N s s' → V.kept s →
    Ends V.Entered ((mw >>= compose).outcome s).1 ((mw' >>= compose).outcome s').1 ∧
      V.Exact N ((mw >>= compose).outcome s).2 ((mw' >>= compose).outcome s').2 ∧
      Deed N N s s' ((mw >>= compose).outcome s).2 ((mw' >>= compose).outcome s').2

/-- Links do the same if they do so wherever they are called. -/
theorem faithful_of_later {R : Numbers → World → World → Prop} (hR : V.Views R)
    (h : ∀ {l l' : Link}, V.alike l l' → ∀ {N : Numbers} {x : Nat} {next next' : Process},
      V.Handed R N next next' → V.Later R N (l.call x next) (l'.call x next')) : V.Faithful R :=
  fun hl _ _ _ _ _ _ hnext hk => (h hl hnext).andThen hR fun o => hk o o (.refl o)

/-- Choices that ask the same function and open for each other respond the same. -/
theorem responds_of_opens (hb : b.Closed) (hshared : V.shared = b.composers.length)
    (hid : id < V.shared) (halone : ∀ p, ¬V.beside p) {c c' : Choice}
    (halike : ∀ l l', V.alike l l' ↔ l = .lazily c ∧ l' = .lazily c') {q : Probe Condition}
    {yes yes' no no' : Build (List Middleware)}
    (hc : ∀ x k, c.pick x k = q.ask x fun v => k (if v.truthy then yes else no))
    (hc' : ∀ x k, c'.pick x k = q.ask x fun v => k (if v.truthy then yes' else no'))
    (hyes : V.Opens yes yes') (hno : V.Opens no no') {cs : List Command}
    {rs : List (Report × List Context)}
    (h : Responds V.kept ((b.adding V.left).hook id (.lazily c)) cs rs) :
    Responds (fun _ => True) ((b.adding V.right).hook id (.lazily c')) cs rs := by
  have hR := views_exact (V := V)
  have hfaithful : V.Faithful V.Exact := by
    refine faithful_of_later hR fun {l l'} hl N x next next' hnext => ?_
    obtain ⟨rfl, rfl⟩ := (halike l l').mp hl
    simp only [Link.call, hc, hc']
    refine .deferred (later_ask hR q x fun v => ?_)
    have hopens : V.Opens (if v.truthy then yes else no) (if v.truthy then yes' else no') := by
      split
      · exact hyes
      · exact hno
    exact later_building (fun N₁ s s' _ hs hkept => hopens N₁ s s' hs hkept) fun _ _ hl =>
      later_enter hl hnext follows_ended
  have hstores := stores_hook hb hshared hid ((halike _ _).mpr ⟨rfl, rfl⟩)
  have hexact : V.Exact {} ((b.adding V.left).hook id (.lazily c)).fresh
      ((b.adding V.right).hook id (.lazily c')).fresh :=
    ⟨{ hstores with }, rfl, rfl, .nil _ _ _, rfl, rfl⟩
  exact hexact.responds hfaithful halone h

end Variants

namespace Conditional

variable {q : Probe Condition} {es : List Expr} {ms : List Middleware} {l : Link} {w : World}
  {child id : Nat} {f g : Conditional} {V : Variants}

/-- If the middleware is built for each context, its expressions denote the same as before. -/
def Keeps (es : List Expr) (ms : List Middleware) (f g : Conditional) (s : World) : Prop :=
  f = lazily ∨ g = lazily → (buildAll es).outcome s = (.ok ms, s)

theorem outcome_opened (hl : compose ms = pure l) {s : World}
    (hes : f = lazily → (buildAll es).outcome s = (.ok ms, s)) :
    (f.opened es ms child >>= compose).outcome s = (.ok (f.way l child), s) := by
  cases f with
  | filter | drop => rfl
  | branch | route =>
    rw [opened, pure_bind, hl]
    rfl
  | lazily =>
    rw [opened, Build.outcome_bind, hes rfl]
    dsimp only
    rw [hl]
    rfl

theorem opens_opened (hl : compose ms = pure l) (hself : Link.Same V.Composers l l)
    (hkept : ∀ s, V.kept s → Keeps es ms f g s)
    (henter : ∀ l', Link.Same V.Composers l l' → V.Entered (f.way l child) (g.way l' child)) :
    V.Opens (f.opened es ms child) (g.opened es ms child) := by
  intro N s s' hs hk
  rw [outcome_opened hl fun hf => hkept s hk (.inl hf)]
  by_cases hg : g = lazily
  · obtain rfl := hg
    -- the same expressions are built in both states
    have hbasis := (Variants.views_exact (V := V)).basis N
    have hbuilds := ((Variants.builds_buildAll hbasis es).bind fun _ _ =>
      Variants.builds_compose hbasis) s s' hs
    have hlazily : (lazily.opened es ms child >>= compose).outcome s =
        (.ok (lazily.way l child), s) := outcome_opened hl fun _ => hkept s hk (.inr rfl)
    have hleft : (buildAll es >>= compose).outcome s = (.ok l, s) := hlazily
    rw [hleft] at hbuilds
    obtain ⟨hends, hrest⟩ := hbuilds
    change Variants.Ends _ (.ok (f.way l child)) ((buildAll es >>= compose).outcome s').1 ∧
      V.Exact N s ((buildAll es >>= compose).outcome s').2 ∧
      Deed N N s s' s ((buildAll es >>= compose).outcome s').2
    generalize (buildAll es >>= compose).outcome s' = r at hends hrest
    obtain ⟨e, v⟩ := r
    have hnoted : Noted s s' s v := ⟨[], [], (List.append_nil _).symm,
      (hrest.events.trans hs.events.symm).trans (List.append_nil _).symm, (List.append_nil _).symm,
      (hrest.notices.trans hs.notices.symm).trans (List.append_nil _).symm⟩
    cases hends with
    | ok h => exact ⟨.ok (henter _ h), hrest, deed_of_marks hnoted rfl⟩
  · rw [outcome_opened hl fun h => absurd h hg]
    exact ⟨.ok (henter l hself), hs, deed_of_marks (.refl s s') rfl⟩

theorem opens_shut (f g : Conditional) : V.Opens f.shut g.shut := by
  intro N s s' hs _
  rw [compose_shut, compose_shut]
  exact ⟨.ok (.chains (.same .pass)), hs, deed_of_marks (.refl s s') rfl⟩

/-- Two variants of a state with `n` composers: the middleware was registered in two ways. -/
def variants (q : Probe Condition) (es : List Expr) (ms : List Middleware) (child : Nat)
    (f g : Conditional) (n : Nat) (left right : List Composer) : Variants where
  shared := n
  left
  right
  alike l l' := l = .lazily (f.choice q es ms child) ∧ l' = .lazily (g.choice q es ms child)
  kept := Keeps es ms f g

theorem responds_of_entered (child : Nat) (left right : List Composer) {b : World} (hb : b.Closed)
    (hid : id < b.composers.length) (hl : compose ms = pure l) (hwithin : l.Within b.Knows)
    (henter : ∀ l', Link.Same (variants q es ms child f g b.composers.length left right).Composers
      l l' → (variants q es ms child f g b.composers.length left right).Entered (f.way l child)
        (g.way l' child))
    {cs : List Command} {rs : List (Report × List Context)}
    (h : Responds (Keeps es ms f g) ((b.adding left).hook id (.lazily (f.choice q es ms child)))
      cs rs) :
    Responds (fun _ => True) ((b.adding right).hook id (.lazily (g.choice q es ms child))) cs rs :=
  have hself := l.same_self fun id hid => .inl ⟨hwithin hid id rfl, rfl⟩
  Variants.responds_of_opens (V := variants q es ms child f g b.composers.length left right) hb rfl
    hid (fun _ h => h) (fun _ _ => .rfl) f.pick_eq g.pick_eq
    (opens_opened hl hself (fun _ hk => hk) henter) (opens_shut f g) h

/-- However the middleware was registered, all that comes later is the same. -/
theorem responds (hw : w.Closed) (hid : id < w.composers.length)
    (hes : (buildAll es).outcome w = (.ok ms, w)) (hl : compose ms = pure l) (f g : Conditional)
    {cs : List Command} {rs : List (Report × List Context)}
    (h : Responds (Keeps es ms f g) (f.after q es ms l id w) cs rs) :
    Responds (fun _ => True) (g.after q es ms l id w) cs rs := by
  have hwithin := hw.within_of_compose hes hl
  by_cases hboth : f.nested = true ∧ g.nested = true
  · -- the composer that holds the middleware is the same one
    obtain ⟨hf, hg⟩ := hboth
    have hnew : w.composers.length < (w.adding [{ chain := l }]).composers.length := by
      simp [World.adding]
    rw [after_of_nested hf, ← World.adding_nil (w.adding _)] at h
    rw [after_of_nested hg, ← World.adding_nil (w.adding _)]
    refine responds_of_entered w.composers.length [] [] (hw.addComposer hwithin) (hid.trans hnew) hl
      (fun part hpart => (hwithin hpart).mono hnew.le) (fun l' _ => ?_) h
    rw [way, way, if_pos hf, if_pos hg]
    exact .chains (.same (.composer (.inl ⟨hnew, rfl⟩)))
  · refine responds_of_entered _ (f.below l) (g.below l) hw hid hl hwithin ?_ h
    intro l' hl'
    have hself : Link.Same (variants q es ms w.composers.length f g w.composers.length (f.below l)
        (g.below l)).Composers l l := l.same_self fun id hid => .inl ⟨hwithin hid id rfl, rfl⟩
    rcases hf : f.nested with _ | _ <;> rcases hg : g.nested with _ | _ <;>
      simp only [way, hf, hg, if_true, if_false, Bool.false_eq_true]
    · exact .chains (.same hl')
    · exact .right (j := 0) (c := { chain := l }) (by simp [variants, below, hg]) (.same hself)
    · exact .left (j := 0) (c := { chain := l }) (by simp [variants, below, hf]) (.same hl')
    · exact absurd ⟨hf, hg⟩ hboth

end Conditional

open Machine in
/-- Middleware that runs where a function of the context holds can be registered in any of the five
ways. The state after it differs, but nothing that is registered and dispatched later does, as no
name stands for the composer that the call returned. Each time the link of the filter is reached it
asks the function once, and goes on with the chain of the middleware or passes. -/
theorem conditionals_respond_alike {w : World} (hw : w.Closed) {id : Nat}
    (hid : id < w.composers.length) {p : Probe Listener} {q : Probe Condition}
    (hp : (p.build.outcome w).1 = .ok q) {es : List Expr} {ms : List Middleware}
    (hes : (buildAll es).outcome w = (.ok ms, w)) (hms : ∀ m ∈ ms, m.IsCallable) :
    ∃ after : Conditional → World,
      (∀ f : Conditional, (Build.register id (f.registration p es)).outcome w =
        (.ok w.composers.length, after f)) ∧
      (∀ f g cs rs, Responds (Conditional.Keeps es ms f g) (after f) cs rs →
        Responds (fun _ => True) (after g) cs rs) ∧
      ∃ g : Gate, g.probe = q ∧ g.negated = false ∧ g.Registered id w (after .filter) ∧
        compose ms = pure ((after .filter).chain g.child) ∧
        ∀ {V : Visit} {r m : Machine} {since : List Machine} {p : Process}, Reachable r →
          r.focus = some (V.owner, .enter g.link V.x V.next V.k) → Trace r (r :: since) m →
          m.focus = some (V.owner, p) → Gate.Course g V since p := by
  obtain ⟨l, hl⟩ := exists_compose hms
  have houtcome := Conditional.outcome_registration hp hes hl id
  refine ⟨Conditional.after q es ms l id w, houtcome,
    fun f g cs rs => Conditional.responds hw hid hes hl f g, ?_⟩
  have hfilter : (Build.register id (.gated false p es)).outcome w = _ := houtcome .filter
  obtain ⟨g, hnegated, hchild, hprobe, hregistered⟩ := Gate.exists_registered hid hfilter
  refine ⟨g, (Except.ok.inj (hp.symm.trans hprobe)).symm, hnegated, hregistered, ?_,
    fun hr hreach hrun hq => Gate.course hr hreach hrun hq⟩
  have hnew : w.composers.length < (w.adding [{ chain := l }]).composers.length := by
    simp [World.adding]
  rw [hchild, Conditional.after_of_nested rfl, World.chain_hook_of_ne (hid.trans hnew) hnew hid.ne,
    hl]
  exact congrArg pure (World.chain_addComposer w { chain := l }).symm

/-- A dispatcher with a composer that has a name. -/
def namedWorld : World :=
  { client := none, me := default, composers := [{}], registers := [("c", .composer 0)] }

theorem closed_namedWorld : namedWorld.Closed := by
  constructor
  · intro c hc
    obtain rfl := List.mem_singleton.mp hc
    exact Link.within_pass
  · intro r hr part hpart id hid
    obtain rfl := List.mem_singleton.mp hr
    cases hpart
    cases hid
    decide

/-- A function that notes that it runs, and goes on. -/
def runningExpr : Expr := .script [.note (.str "runs"), .next] false

/-- The state after such a function was registered to run where another one holds. -/
def conditionalWorld (p : Probe Listener) (f : Conditional) : World :=
  ((Build.register 0 (f.registration p [runningExpr])).outcome namedWorld).2

/-- A run of the composer for a new context. -/
def conditionalRun (w : World) : Machine :=
  .ofRoots (w.addContext { update := .obj [], me := w.me }) [(Link.composer 0).run 0]

/-- A function that holds of no context. -/
def neverProbe : Probe Listener := { source := .constant (.bool false) }

/-- A route asks its function and runs the middleware, because a filter does so. -/
theorem conditionals_respond_alike_route :
    namedWorld.Closed ∧ 0 < namedWorld.composers.length ∧
    (Gate.askedProbe.build.outcome namedWorld).1 = .ok Gate.askedGate.probe ∧
    (buildAll [runningExpr]).outcome namedWorld =
      (.ok [.link (.script ⟨[.note (.str "runs"), .next], false⟩)], namedWorld) ∧
    ∃ answer notices contexts, Responds (fun _ => True) (conditionalWorld Gate.askedProbe .route)
      [.traverse (.named "c") (.obj [])]
      [({ answer, events := [.note (.str "asked"), .note (.str "runs")], notices }, contexts)] := by
  have hid : 0 < namedWorld.composers.length := by decide
  have hprobe : (Gate.askedProbe.build.outcome namedWorld).1 = .ok Gate.askedGate.probe := rfl
  have hbuilt : (buildAll [runningExpr]).outcome namedWorld =
      (.ok [.link (.script ⟨[.note (.str "runs"), .next], false⟩)], namedWorld) := rfl
  refine ⟨closed_namedWorld, hid, hprobe, hbuilt, ?_⟩
  obtain ⟨after, houtcome, hrespond, -⟩ := conditionals_respond_alike closed_namedWorld hid hprobe
    hbuilt fun m hm => by
      obtain rfl := List.mem_singleton.mp hm
      trivial
  have hafter : ∀ f, after f = conditionalWorld Gate.askedProbe f := fun f =>
    (congrArg Prod.snd (houtcome f)).symm
  have hend : Machine.EndsWith (conditionalRun (conditionalWorld Gate.askedProbe .filter))
      ((conditionalRun (conditionalWorld Gate.askedProbe .filter)).run 60).world none :=
    ⟨60, .ok .null, by cbv, rfl, by cbv, rfl⟩
  have hevents : ((conditionalRun (conditionalWorld Gate.askedProbe .filter)).run 60).world.events =
      [.note (.str "asked"), .note (.str "runs")] := by cbv
  have hfilter : ∃ answer notices contexts, Responds (Conditional.Keeps [runningExpr]
      [.link (.script ⟨[.note (.str "runs"), .next], false⟩)] .filter .route) (after .filter)
      [.traverse (.named "c") (.obj [])]
      [({ answer, events := [.note (.str "asked"), .note (.str "runs")], notices }, contexts)] := by
    rw [hafter, ← hevents]
    exact ⟨_, _, _, .cons (Command.answers_traverse rfl ⟨hend, fun _ _ h => by simp at h⟩) (.nil _)⟩
  obtain ⟨answer, notices, contexts, hfilter⟩ := hfilter
  rw [← hafter .route]
  exact ⟨answer, notices, contexts, hrespond .filter .route _ _ hfilter⟩

/-- A call that returns the composer that it made, whose number is 1, and the same composer used on
the first one. -/
def reusingWorld (f : Conditional) : World :=
  ((Build.step (.register "c" none (.use [.named "f"]))).outcome
    { conditionalWorld neverProbe f with
      registers := [("c", .composer 0), ("f", .composer 1)] }).2

/-- The composer that a filter returns holds the middleware, and the one that a branch returns holds
the choice. So the middleware runs if the former is used, and does not run if the latter is. -/
theorem filter_returns_middleware :
    (∀ f ∈ [Conditional.filter, .branch],
      (Build.register 0 (f.registration neverProbe [runningExpr])).outcome namedWorld =
        (.ok 1, conditionalWorld neverProbe f)) ∧
    (∃ w, Machine.EndsWith (conditionalRun (reusingWorld .filter)) w none ∧
      w.events = [.note (.str "runs")]) ∧
    ∃ w, Machine.EndsWith (conditionalRun (reusingWorld .branch)) w none ∧ w.events = [] := by
  refine ⟨?_, ⟨((conditionalRun (reusingWorld .filter)).run 60).world, ?_, by cbv⟩,
    ((conditionalRun (reusingWorld .branch)).run 60).world, ?_, by cbv⟩
  · intro f hf
    rcases List.mem_pair.mp hf with rfl | rfl <;> rfl
  · exact ⟨60, .ok .null, by cbv, rfl, by cbv, rfl⟩
  · exact ⟨60, .ok .null, by cbv, rfl, by cbv, rfl⟩

end UpdateDispatch
