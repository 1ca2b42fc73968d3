import UpdateDispatch.Proofs.Dispatch.Likeness

/-!
# Nested chains as sequences of functions

A chain of composers within composers stands for the list of its functions in order (`Unrolls`), as
long as the composers in it have the chains that are known of them (`World.Agrees`). A
call of the chain goes through composers and functions that pass without doing anything to the
state, until it comes to the first function that does something or to the end (`reaches_first`). On
the way it makes guards, and leaves the links that come after that function on a stack
(`pending`): the continuation of the function is a call of that stack.

`sequence` runs the functions of a list without any composers.
-/

namespace UpdateDispatch

open Relation

/-- A function as a link. -/
def Fn.link : Fn → Link
  | .pass => .pass
  | .script s => .script s

/-- Links that stand for the functions of a list, where some composers have known chains. -/
inductive Unrolls (chain : Nat → Option Link) : List Link → List Fn → Prop
  | nil : Unrolls chain [] []
  | pass {ls : List Link} {fs : List Fn} (h : Unrolls chain ls fs) :
      Unrolls chain (.pass :: ls) (.pass :: fs)
  | script {s : Script} {ls : List Link} {fs : List Fn} (h : Unrolls chain ls fs) :
      Unrolls chain (.script s :: ls) (.script s :: fs)
  | composer {id : Nat} {l : Link} {ls : List Link} {fs : List Fn} (hl : chain id = some l)
      (h : Unrolls chain (l :: ls) fs) : Unrolls chain (.composer id :: ls) fs
  | concat {first second : Link} {ls : List Link} {fs : List Fn}
      (h : Unrolls chain (first :: second :: ls) fs) :
      Unrolls chain (.concat first second :: ls) fs

/-- Composers have the chains that are known of them. -/
def World.Agrees (w : World) (chain : Nat → Option Link) : Prop :=
  ∀ id l, chain id = some l → w.chain id = l

/-- The chains of a state are known of all its composers. -/
def World.known (w : World) (id : Nat) : Option Link := some (w.chain id)

theorem World.agrees_known (w : World) : w.Agrees w.known := fun _ _ => Option.some.inj

theorem World.Agrees.congr {w v : World} {chain : Nat → Option Link} (h : w.Agrees chain)
    (hcomposers : v.composers = w.composers) : v.Agrees chain := fun id l hl => by
  rw [World.chain, hcomposers]
  exact h id l hl

theorem Unrolls.eq_nil {chain : Nat → Option Link} {ls : List Link} {fs : List Fn}
    (h : Unrolls chain ls fs) (hfs : fs = []) : ls = [] := by
  induction h with
  | nil => rfl
  | pass | script => cases hfs
  | composer _ _ ih => cases ih hfs
  | concat _ ih => cases ih hfs

namespace Process

/-! ## Continuations -/

/-- The rest of a chain: the links to be called, each behind its guard. -/
def pending (x : Nat) : List (Nat × Link) → Process
  | [] => leaf
  | (guard, l) :: rest => once guard (l.call x (pending x rest))

/-- The functions of a list, one as the continuation of the other. All but the last one get a
continuation with a guard. -/
def sequence (x : Nat) : List Fn → Process
  | [] => done
  | .pass :: rest => sequence x rest
  | .script s :: rest => newGuard fun guard =>
    let next := if rest.isEmpty then leaf else once guard (deferred (sequence x rest))
    Action.runAll (.between x next) s.body

/-- What the last function that ran gets for the rest of a sequence. -/
def continuation (x guard : Nat) (rest : List Fn) : Process :=
  if rest.isEmpty then leaf else once guard (deferred (sequence x rest))

theorem sequence_script (x : Nat) (s : Script) (rest : List Fn) :
    sequence x (.script s :: rest) = newGuard fun guard =>
      Action.runAll (.between x (continuation x guard rest)) s.body := rfl

theorem continuation_of_ne_nil (x guard : Nat) {rest : List Fn} (h : rest ≠ []) :
    continuation x guard rest = once guard (deferred (sequence x rest)) := by
  rw [continuation, if_neg]
  rwa [List.isEmpty_iff]

/-! ## Moves -/

/-- A step that neither suspends nor changes the state, with the guards before and after it. -/
inductive Move (w : World) : List Bool × Process → List Bool × Process → Prop
  | read {guards : List Bool} {k : World → Process} : Move w (guards, .read k) (guards, k w)
  | newGuard {guards : List Bool} {k : Nat → Process} :
      Move w (guards, .newGuard k) (guards ++ [false], k guards.length)
  | checkGuard {guards : List Bool} {guard : Nat} {k : Bool → Process} :
      Move w (guards, .checkGuard guard k) (guards, k (guards[guard]?.getD false))
  | useGuard {guards : List Bool} {guard : Nat} {p : Process} :
      Move w (guards, .useGuard guard p) (guards.set guard true, p)
  | enter {guards : List Bool} {l : Link} {x : Nat} {next : Process} {k : Outcome → Process} :
      Move w (guards, .enter l x next k) (guards, (l.call x next).andThen k)

/-- A number of such steps. -/
abbrev Moves (w : World) : List Bool × Process → List Bool × Process → Prop :=
  ReflTransGen (Move w)

variable {w : World} {guards guards' : List Bool} {p p' q : Process} {k k' k'' : Outcome → Process}
  {x guard : Nat}

/-- A guarded continuation that was called before. -/
theorem move_refused (h : guards[guard]? = some true) (rest : Process) {K : Process → Process}
    (hK : Surrounds K) :
    TransGen (Move w) (guards, K (once guard rest)) (guards, K (raised .nextCalledTwice)) := by
  rw [hK.once]
  have hmove : Move w (guards, .checkGuard guard fun used =>
      if used then K (raised .nextCalledTwice) else .useGuard guard (K rest.awaited)) (guards, _) :=
    .checkGuard
  rw [h] at hmove
  exact .single hmove

/-- A guarded continuation that was not called before. -/
theorem moves_admitted (h : guards[guard]? = some false) (rest : Process) {K : Process → Process}
    (hK : Surrounds K) : TransGen (Move w) (guards, K (once guard rest))
      (guards.set guard true, K rest.awaited) := by
  rw [hK.once]
  refine .head .checkGuard (.single ?_)
  rw [h]
  exact .useGuard

end Process

/-! ## Guards of a stack -/

open Machine (Kept kept_append kept_set)

/-- The guards of a stack exist, are not used yet and differ from each other. -/
structure Fresh (guards : List Bool) (stack : List (Nat × Link)) : Prop where
  unused : ∀ e ∈ stack, guards[e.1]? = some false
  distinct : (stack.map Prod.fst).Nodup

variable {guards : List Bool} {stack : List (Nat × Link)} {guard : Nat} {l : Link}

theorem fresh_nil (guards : List Bool) : Fresh guards [] := ⟨nofun, List.nodup_nil⟩

theorem Fresh.head (h : Fresh guards ((guard, l) :: stack)) : guards[guard]? = some false :=
  h.unused _ List.mem_cons_self

/-- The use of the first guard leaves the others unused. -/
theorem Fresh.set (h : Fresh guards ((guard, l) :: stack)) :
    Fresh (guards.set guard true) stack := by
  obtain ⟨hhead, htail⟩ := List.nodup_cons.mp h.distinct
  refine ⟨fun e he => ?_, htail⟩
  have hne : guard ≠ e.1 := fun heq => hhead (List.mem_map.mpr ⟨e, he, heq.symm⟩)
  rw [List.getElem?_set_ne hne]
  exact h.unused e (List.mem_cons_of_mem _ he)

theorem Fresh.append (h : Fresh guards stack) : Fresh (guards ++ [false]) stack := by
  refine ⟨fun e he => ?_, h.distinct⟩
  have hunused := h.unused e he
  obtain ⟨hlt, -⟩ := List.getElem?_eq_some_iff.mp hunused
  rw [List.getElem?_append_left hlt, hunused]

/-- A new guard on top of a stack. -/
theorem Fresh.push (h : Fresh guards stack) (l : Link) :
    Fresh (guards ++ [false]) ((guards.length, l) :: stack) := by
  refine ⟨fun e he => ?_, List.nodup_cons.mpr ⟨fun hmem => ?_, h.distinct⟩⟩
  · rcases List.mem_cons.mp he with rfl | he
    · exact List.getElem?_concat_length
    · exact h.append.unused e he
  · obtain ⟨e, he, heq⟩ := List.mem_map.mp hmem
    have hunused := h.unused e he
    rw [heq, List.getElem?_eq_none (Nat.le_refl _)] at hunused
    cases hunused

namespace Process

variable {w : World} {guards guards' : List Bool} {p p' q : Process} {k k' k'' : Outcome → Process}
  {x guard : Nat} {chain : Nat → Option Link} {stack : List (Nat × Link)} {fs : List Fn} {l : Link}

/-! ## The first function of a chain -/

/-- What goes on in the same way as `k`, up to values. -/
def Through (k' k : Outcome → Process) : Prop := ∀ o, ∃ o', Outcome.Alike o o' ∧ k' o = k o'

theorem Through.refl (k : Outcome → Process) : Through k k := fun o => ⟨o, .refl o, rfl⟩

theorem Through.trans (h : Through k'' k') (h' : Through k' k) : Through k'' k := by
  intro o
  obtain ⟨o', ho, heq⟩ := h o
  obtain ⟨o'', ho', heq'⟩ := h' o'
  exact ⟨o'', ho.trans ho', heq.trans heq'⟩

theorem through_ignoring (k : Outcome → Process) : Through (ignoring k) k := by
  rintro (f | v)
  · exact ⟨.error f, .refl _, rfl⟩
  · exact ⟨.ok .null, Outcome.alike_ok _ _, rfl⟩

/-- A process is about to do what the functions of a list do, with what is left on a stack. -/
inductive Arrives (chain : Nat → Option Link) (x : Nat) (guards : List Bool)
    (k : Outcome → Process) : List Fn → Process → Prop
  | done {v : Json} : Arrives chain x guards k [] (k (.ok v))
  | pass {fs : List Fn} {p : Process} (h : Arrives chain x guards k fs p) :
      Arrives chain x guards k (.pass :: fs) p
  | script {s : Script} {fs : List Fn} {stack : List (Nat × Link)} {k' : Outcome → Process}
      (hrest : Unrolls chain (stack.map Prod.snd) fs) (hfresh : Fresh guards stack)
      (hk : Through k' k) : Arrives chain x guards k (.script s :: fs)
        ((s.call (.between x (pending x stack))).andThen k')

theorem Arrives.through (h : Arrives chain x guards k' fs p) (hk : Through k' k) :
    Arrives chain x guards k fs p := by
  induction h with
  | @done v =>
    obtain ⟨o, ho, heq⟩ := hk (.ok v)
    obtain ⟨-, v', -, rfl⟩ | ⟨f, hf, -⟩ := ho.cases
    · rw [heq]
      exact .done
    · cases hf
  | pass _ ih => exact .pass ih
  | script hrest hfresh hk' => exact .script hrest hfresh (hk'.trans hk)

/-- The call of a link and of what is pending after it leads to the first function that does
something. -/
theorem reaches_first {ls : List Link} (h : Unrolls chain ls fs) (hw : w.Agrees chain) :
    ∀ {l : Link} {stack : List (Nat × Link)} {guards : List Bool} (k : Outcome → Process),
      ls = l :: stack.map Prod.snd → Fresh guards stack →
      ∃ guards' p, Moves w (guards, (l.call x (pending x stack)).andThen k) (guards', p) ∧
        Kept guards guards' ∧ Arrives chain x guards' k fs p := by
  induction h with
  | nil => nofun
  | @pass ls fs hrest ih =>
    rintro l stack guards k ⟨⟩ hfresh
    cases stack with
    | nil =>
      cases hrest
      exact ⟨guards, k (.ok .null), .refl, .of_eq rfl, .pass .done⟩
    | cons e stack =>
      obtain ⟨guard, l⟩ := e
      have hmoves := moves_admitted (w := w) hfresh.head (l.call x (pending x stack))
        (.andThen k .hole)
      rw [awaited_andThen] at hmoves
      obtain ⟨guards', p, hlater, hkept, harrives⟩ := ih k rfl hfresh.set
      exact ⟨guards', p, hmoves.to_reflTransGen.trans hlater, (kept_set _ _).trans hkept,
        .pass harrives⟩
  | @script s ls fs hrest ih =>
    rintro l stack guards k ⟨⟩ hfresh
    exact ⟨guards, _, .refl, .of_eq rfl, .script hrest hfresh (.refl k)⟩
  | composer hl _ ih =>
    rintro _ stack guards k ⟨⟩ hfresh
    obtain ⟨guards', p, hlater, hkept, harrives⟩ := ih (ignoring k) rfl hfresh
    refine ⟨guards', p, .head .read (.head .enter ?_), hkept,
      harrives.through (through_ignoring k)⟩
    simp only [ended_ignored_andThen, hw _ _ hl]
    exact hlater
  | @concat first second ls fs hrest ih =>
    rintro l stack guards k ⟨⟩ hfresh
    have hlinks : first :: second :: stack.map Prod.snd =
        first :: ((guards.length, second) :: stack).map Prod.snd := rfl
    obtain ⟨guards', p, hlater, hkept, harrives⟩ := ih (ignoring k) hlinks (hfresh.push second)
    refine ⟨guards', p, .head .newGuard ?_, (kept_append _ _).trans hkept,
      harrives.through (through_ignoring k)⟩
    simp only [ignored_andThen]
    exact hlater

/-- What surrounds a call that is dropped. -/
theorem surrounds_dropping (k : Outcome → Process) :
    Surrounds fun p => (p.onCall dropping).andThen k := .andThen k (.onCall dropping .hole)

/-- A call that is not awaited does nothing, if the functions that are left start awaited. -/
theorem moves_dropped (h : Unrolls chain (l :: stack.map Prod.snd) fs) (hfs : StartsAwaited fs)
    (hfresh : Fresh guards stack) (k : Outcome → Process) : ∃ guards', Kept guards guards' ∧
      Moves w (guards, ((l.call x (pending x stack)).awaited.onCall dropping).andThen k)
        (guards', k (.ok .null)) := by
  induction stack generalizing l fs guards with
  | nil =>
    refine ⟨guards, .of_eq rfl, ?_⟩
    cases h with
    | script =>
      rw [Link.call, Script.call, show _ = false from hfs]
      exact .refl
    | pass | composer | concat => exact .refl
  | cons e stack ih =>
    obtain ⟨guard, next⟩ := e
    cases h with
    | pass h =>
      -- a function that passes calls the next one at once
      obtain ⟨guards', hkept, hmoves⟩ := ih h hfs hfresh.set
      refine ⟨guards', (kept_set _ _).trans hkept, .trans ?_ hmoves⟩
      rw [Link.call, pending, once_awaited]
      exact (moves_admitted hfresh.head _ (surrounds_dropping k)).to_reflTransGen
    | script =>
      refine ⟨guards, .of_eq rfl, ?_⟩
      rw [Link.call, Script.call, show _ = false from hfs]
      exact .refl
    | composer | concat => exact ⟨guards, .of_eq rfl, .refl⟩

end Process

/-! ## Two runs of the same functions -/

/-- The functions of a list neither register anything nor drop a call that does something. -/
def Orderly : List Fn → Prop
  | [] => True
  | .pass :: rest => Orderly rest
  | .script s :: rest => (∀ a ∈ s.body, Process.Heeds rest a) ∧ Orderly rest

/-- What an action must not do before the functions `fs`: drop a call that does something at once,
or register anything when chains of composers are known. -/
structure Process.Minds (chain : Nat → Option Link) (fs : List Fn) (a : Action) : Prop where
  dropped : a = .nextDropped → StartsAwaited fs
  registered : ∀ s, a = .step s → ∀ id, chain id = none

/-- The functions of a list drop no call that does something, and they register nothing when chains
of composers are known. -/
def Tidy (chain : Nat → Option Link) : List Fn → Prop
  | [] => True
  | .pass :: rest => Tidy chain rest
  | .script s :: rest => (∀ a ∈ s.body, Process.Minds chain rest a) ∧ Tidy chain rest

theorem Orderly.tidy {fs : List Fn} (h : Orderly fs) (chain : Nat → Option Link) :
    Tidy chain fs := by
  induction fs with
  | nil => trivial
  | cons f rest ih =>
    cases f with
    | pass => exact ih h
    | script s =>
      refine ⟨fun a ha => ?_, ih h.2⟩
      have hheeds := h.1 a ha
      exact ⟨hheeds.dropped, fun s heq => absurd heq (hheeds.unchanging s)⟩

/-- A continuation that was not called yet: the stack that stands for it in one run, its guard in
the other one, and the functions that are left. -/
structure Uncalled where
  stack : List (Nat × Link)
  guard : Nat
  rest : List Fn

/-- How far two runs of the same functions have come: the guards of both, and the continuation that
was not called yet, if there is one. -/
structure Standing where
  guards : List Bool
  guards' : List Bool
  uncalled : Option Uncalled

/-- A continuation that neither run has called. -/
structure Uncalled.Valid (chain : Nat → Option Link) (guards guards' : List Bool) (c : Uncalled) :
    Prop where
  unrolls : Unrolls chain (c.stack.map Prod.snd) c.rest
  fresh : Fresh guards c.stack
  unused : guards'[c.guard]? = some false
  ne_nil : c.rest ≠ []
  tidy : Tidy chain c.rest

/-- The continuation that was not called yet can be called. -/
def Standing.Valid (chain : Nat → Option Link) (t : Standing) : Prop :=
  ∀ c ∈ t.uncalled, c.Valid chain t.guards t.guards'

open Process

/-- Continuations that correspond to each other: both were called, or neither was. -/
inductive Site (x : Nat) (t : Standing) : List Fn → Process → Process → Prop
  | called {fs : List Fn} {guard guard' : Nat} {rest rest' : Process}
      (h : t.guards[guard]? = some true) (h' : t.guards'[guard']? = some true) :
      Site x t fs (once guard rest) (once guard' rest')
  | uncalled {c : Uncalled} (h : c ∈ t.uncalled) :
      Site x t c.rest (pending x c.stack) (continuation x c.guard c.rest)

/-- What functions of both runs call: continuations that correspond to each other, or the same
registration, if no chains are known. -/
inductive Called (chain : Nat → Option Link) (x : Nat) (t : Standing) :
    List Fn → Process → Process → Prop
  | site {fs : List Fn} {n n' : Process} (h : Site x t fs n n') : Called chain x t fs n n'
  | registering {fs : List Fn} (s : Step) (h : ∀ id, chain id = none) :
      Called chain x t fs (registering s) (registering s)

variable {w : World} {chain : Nat → Option Link} {x : Nat} {t t' : Standing} {fs : List Fn}
  {n n' p q : Process} {k k' : Outcome → Process}

theorem Process.Minds.allowed {a : Action} (h : Minds chain fs a) :
    Allowed (Called chain x t) fs a :=
  ⟨h.dropped, fun s heq => .registering s (h.registered s heq)⟩

theorem Called.mono (h : Called chain x t fs n n')
    (hsite : ∀ {fs n n'}, Site x t fs n n' → Site x t' fs n n') : Called chain x t' fs n n' := by
  cases h with
  | site h => exact .site (hsite h)
  | registering s h => exact .registering s h

theorem Uncalled.Valid.stack_eq {guards guards' : List Bool} {c : Uncalled}
    (h : c.Valid chain guards guards') : ∃ guard l stack, c.stack = (guard, l) :: stack := by
  rcases hstack : c.stack with _ | ⟨⟨guard, l⟩, stack⟩
  · have hunrolls := h.unrolls
    rw [hstack] at hunrolls
    generalize hrest : c.rest = rest at hunrolls
    cases hunrolls
    exact absurd hrest h.ne_nil
  · exact ⟨guard, l, stack, rfl⟩

/-- Continuations still correspond after the one that was not called yet has been called. -/
theorem Site.admitted {c : Uncalled} {guard : Nat} {l : Link} {stack : List (Nat × Link)}
    (h : Site x t fs n n') (hc : c ∈ t.uncalled) (hvalid : c.Valid chain t.guards t.guards')
    (hstack : c.stack = (guard, l) :: stack) (hguards : Kept (t.guards.set guard true) t'.guards)
    (hguards' : Kept (t.guards'.set c.guard true) t'.guards') : Site x t' fs n n' := by
  cases h with
  | called h h' =>
    exact .called (((kept_set _ _).trans hguards).used _ h)
      (((kept_set _ _).trans hguards').used _ h')
  | @uncalled c' hc' =>
    obtain rfl : c' = c := Option.mem_unique hc' hc
    have hhead := (hstack ▸ hvalid.fresh).head
    obtain ⟨hlt, -⟩ := List.getElem?_eq_some_iff.mp hhead
    obtain ⟨hlt', -⟩ := List.getElem?_eq_some_iff.mp hvalid.unused
    rw [hstack, continuation_of_ne_nil x c'.guard hvalid.ne_nil]
    exact .called (hguards.used _ (List.getElem?_set_self hlt))
      (hguards'.used _ (List.getElem?_set_self hlt'))

/-- What follows a function is alike, given what follows the chain. -/
theorem Process.Through.follow {C : List Fn → Process → Process → Prop} {k'' : Outcome → Process}
    (h : Through k'' k) (hk : Follow C k k') : Follow C k'' k' := by
  intro o o' ho
  obtain ⟨o'', ho'', heq⟩ := h o
  rw [heq]
  exact hk _ _ (ho''.symm.trans ho)

/-- A chain that comes to its first function does what the sequence of the functions does. -/
theorem Process.Arrives.alike {guards : List Bool} (h : Arrives chain x guards k fs p)
    (guards' : List Bool) (hfs : Tidy chain fs)
    (hk : ∀ t : Standing, t.guards = guards → Kept guards' t.guards' →
      Follow (Called chain x t) k k') :
    ∃ t q, t.guards = guards ∧ Kept guards' t.guards' ∧ t.Valid chain ∧
      Moves w (guards', (sequence x fs).andThen k') (t.guards', q) ∧
        Alike (Called chain x t) p q := by
  induction h with
  | done =>
    refine ⟨⟨guards, guards', none⟩, k' (.ok .null), rfl, .of_eq rfl, nofun, .refl, ?_⟩
    exact hk _ rfl (.of_eq rfl) _ _ (Outcome.alike_ok _ _)
  | pass _ ih => exact ih hfs
  | @script s fs stack k'' hrest hfresh hk'' =>
    obtain ⟨hs, hfs⟩ := hfs
    have hkept : Kept guards' (guards' ++ [false]) := kept_append _ _
    rw [sequence_script]
    cases fs with
    | nil =>
      obtain rfl : stack = [] := List.map_eq_nil_iff.mp (hrest.eq_nil rfl)
      refine ⟨⟨guards, guards' ++ [false], none⟩, _, rfl, hkept, nofun, .single .newGuard, ?_⟩
      exact alike_script ⟨.inr ⟨rfl, rfl⟩, fun _ => rfl⟩ s (fun a ha => (hs a ha).allowed)
        (hk''.follow (hk _ rfl hkept))
    | cons f fs =>
      let c : Uncalled := ⟨stack, guards'.length, f :: fs⟩
      refine ⟨⟨guards, guards' ++ [false], some c⟩, _, rfl, hkept, ?_, .single .newGuard, ?_⟩
      · rintro _ ⟨⟩
        exact ⟨hrest, hfresh, List.getElem?_concat_length, List.cons_ne_nil _ _, hfs⟩
      · refine alike_script ⟨.inl (.site (.uncalled (c := c) rfl)), fun q => ?_⟩ s
          (fun a ha => (hs a ha).allowed) (hk''.follow (hk _ rfl hkept))
        cases stack with
        | nil => cases hrest
        | cons e stack => exact once_thenCalled e.1 _ q

/-- Moves of two processes lead to processes that are alike. -/
def Meets (chain : Nat → Option Link) (w : World) (x : Nat) (t : Standing) (p q : Process) : Prop :=
  ∃ t' p' q', TransGen (Move w) (t.guards, p) (t'.guards, p') ∧
    TransGen (Move w) (t.guards', q) (t'.guards', q') ∧
    (∀ {fs n n'}, Site x t fs n n' → Site x t' fs n n') ∧ t'.Valid chain ∧
    Alike (Called chain x t') p' q'

theorem meets_refused {guard guard' : Nat} {rest rest' : Process} {K K' : Process → Process}
    (h : t.guards[guard]? = some true) (h' : t.guards'[guard']? = some true)
    (ht : t.Valid chain) (hK : Surrounds K) (hK' : Surrounds K')
    (hk : Alike (Called chain x t) (K (raised .nextCalledTwice)) (K' (raised .nextCalledTwice))) :
    Meets chain w x t (K (once guard rest)) (K' (once guard' rest')) :=
  ⟨t, _, _, move_refused h rest hK, move_refused h' rest' hK', fun h => h, ht, hk⟩

/-- Two continuations that correspond to each other are called and awaited. -/
theorem Site.meets_call (h : Site x t fs n n') (hw : w.Agrees chain) (ht : t.Valid chain)
    (hk : Follow (Called chain x t) k k') :
    Meets chain w x t (n.andThen k) (n'.andThen k') := by
  cases h with
  | called h h' =>
    exact meets_refused h h' ht (.andThen k .hole) (.andThen k' .hole) (hk _ _ (.refl _))
  | @uncalled c hc =>
    have hvalid := ht c hc
    obtain ⟨guard, l, stack, hstack⟩ := hvalid.stack_eq
    have hfresh := hstack ▸ hvalid.fresh
    have hunrolls := hvalid.unrolls
    rw [hstack] at hunrolls
    obtain ⟨guards, p, hlater, hkept, harrives⟩ :=
      reaches_first (x := x) hunrolls hw k rfl hfresh.set
    obtain ⟨t', q, rfl, hkept', hvalid', hlater', halike⟩ :=
      harrives.alike (w := w) (t.guards'.set c.guard true) hvalid.tidy
        fun t' hguards hguards' => hk.mono fun hcalled => hcalled.mono fun hsite =>
          hsite.admitted hc hvalid hstack (hguards ▸ hkept) hguards'
    have hmoves := moves_admitted (w := w) hfresh.head (l.call x (pending x stack))
      (.andThen k .hole)
    rw [awaited_andThen] at hmoves
    have hmoves' := moves_admitted (w := w) hvalid.unused (deferred (sequence x c.rest))
      (.andThen k' .hole)
    rw [hstack, continuation_of_ne_nil x c.guard hvalid.ne_nil]
    exact ⟨t', p, q, hmoves.trans_left hlater, hmoves'.trans_left hlater',
      fun hsite => hsite.admitted hc hvalid hstack hkept hkept', hvalid', halike⟩

/-- Two continuations that correspond to each other are called, and the calls are dropped. -/
theorem Site.meets_drop (h : Site x t fs n n') (hfs : StartsAwaited fs) (ht : t.Valid chain)
    (hk : Follow (Called chain x t) k k') :
    Meets chain w x t ((n.onCall dropping).andThen k) ((n'.onCall dropping).andThen k') := by
  cases h with
  | called h h' =>
    exact meets_refused h h' ht (surrounds_dropping k) (surrounds_dropping k') (hk _ _ (.refl _))
  | @uncalled c hc =>
    have hvalid := ht c hc
    obtain ⟨guard, l, stack, hstack⟩ := hvalid.stack_eq
    have hfresh := hstack ▸ hvalid.fresh
    have hunrolls := hvalid.unrolls
    rw [hstack] at hunrolls
    obtain ⟨guards, hkept, hlater⟩ := moves_dropped (x := x) hunrolls hfs hfresh.set k
    have hmoves := moves_admitted (w := w) hfresh.head (l.call x (pending x stack))
      (surrounds_dropping k)
    have hmoves' := moves_admitted (w := w) hvalid.unused (deferred (sequence x c.rest))
      (surrounds_dropping k')
    have hsite : ∀ {fs n n'}, Site x t fs n n' →
        Site x ⟨guards, t.guards'.set c.guard true, none⟩ fs n n' :=
      fun hsite => hsite.admitted hc hvalid hstack hkept (.of_eq rfl)
    rw [hstack, continuation_of_ne_nil x c.guard hvalid.ne_nil]
    exact ⟨_, _, _, hmoves.trans_left hlater, hmoves', hsite, nofun,
      (hk.mono fun hcalled => hcalled.mono hsite) _ _ (.refl (.ok .null))⟩

end UpdateDispatch
