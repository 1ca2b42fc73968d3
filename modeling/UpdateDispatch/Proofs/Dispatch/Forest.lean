import UpdateDispatch.Proofs.Dispatch.Endings
import UpdateDispatch.Proofs.Dispatch.KeepsMarks

/-!
# Forests of composers

Registrations make a forest: every composer holds a list of functions and of other composers, and
more can be added to any of them at any time. `forest` is this structure as data, and `Planted` says
that the chains of a state are those of a forest. In an acyclic forest every composer stands for one
list of functions, the in-order traversal (`exists_traversal`).

A composer runs like a single composer with the functions of its traversal
(`runs_as_traversal`), no matter when its middleware was obtained, unless one of the functions drops
a call of a function that would run within the call.
-/

namespace UpdateDispatch

open Relation

/-- What a registration takes: a function, or a composer by its number. -/
inductive Item where
  | fn (f : Fn)
  | composer (id : Nat)

namespace Item

/-- An item as middleware. -/
def middleware : Item → Middleware
  | .fn f => .link f.link
  | .composer id => .composer id

/-- An item in a chain. -/
def link : Item → Link
  | .fn f => f.link
  | .composer id => .composer id

/-- The items of a new composer, which passes if it gets none. -/
def orPass (items : List Item) : List Item := if items.isEmpty then [.fn .pass] else items

/-- Items joined one after the other. -/
def joined : List Item → Link
  | [] => .pass
  | i :: rest => rest.foldl (fun l j => .concat l j.link) i.link

end Item

/-- A registration: a new composer, or middleware added to one. -/
inductive Growth where
  | create (items : List Item)
  | use (id : Nat) (items : List Item)

/-- A registration as a computation; it gives the new composer. -/
def Growth.build : Growth → Build Nat
  | .create items => Build.composerOf (items.map Item.middleware)
  | .use id items => Build.use id (items.map Item.middleware)

/-- Registrations one after the other. -/
def grow : List Growth → Build Unit
  | [] => pure ()
  | g :: rest => do
    let _ ← g.build
    grow rest

/-- The items of each composer, in the order of their registration. -/
abbrev Forest : Type := List (List Item)

/-- The forest after a registration. -/
def Growth.extend (F : Forest) : Growth → Forest
  | .create items => F ++ [Item.orPass items]
  | .use id items => (F ++ [Item.orPass items]).modify id (· ++ [.composer F.length])

/-- The forest after some registrations. -/
def forest (gs : List Growth) : Forest := gs.foldl Growth.extend []

/-! ## Traversals -/

/-- The functions of some items in order, those of a composer in its place. -/
inductive Traversal (F : Forest) : List Item → List Fn → Prop
  | nil : Traversal F [] []
  | fn {f : Fn} {rest : List Item} {fs : List Fn} (h : Traversal F rest fs) :
      Traversal F (.fn f :: rest) (f :: fs)
  | composer {id : Nat} {items rest : List Item} {fs fs' : List Fn} (hid : F[id]? = some items)
      (hitems : Traversal F items fs) (h : Traversal F rest fs') :
      Traversal F (.composer id :: rest) (fs ++ fs')

/-- A composer is among the items of another one. -/
def Holds (F : Forest) (id child : Nat) : Prop :=
  ∃ items, F[id]? = some items ∧ .composer child ∈ items

/-- A forest whose composers exist and do not hold themselves, directly or not. -/
structure Acyclic (F : Forest) : Prop where
  known : ∀ id child, Holds F id child → child < F.length
  acyclic : ∀ id, ¬ TransGen (Holds F) id id

variable {F : Forest} {items : List Item} {fs fs' : List Fn} {w w' : World}

theorem Traversal.unique (h : Traversal F items fs) (h' : Traversal F items fs') : fs' = fs := by
  induction h generalizing fs' with
  | nil =>
    cases h'
    rfl
  | fn _ ih =>
    cases h' with
    | fn h' => rw [ih h']
  | composer hid _ _ ihitems ih =>
    cases h' with
    | composer hid' hitems' h' =>
      rw [hid] at hid'
      cases hid'
      rw [ihitems hitems', ih h']

theorem Traversal.append (h : Traversal F items fs) (more : Forest) :
    Traversal (F ++ more) items fs := by
  induction h with
  | nil => exact .nil
  | fn _ ih => exact .fn ih
  | composer hid _ _ ihitems ih =>
    obtain ⟨hlt, -⟩ := List.getElem?_eq_some_iff.mp hid
    exact .composer ((List.getElem?_append_left hlt).trans hid) ihitems ih

/-- Induction from the composers inside to those that hold them. -/
theorem Acyclic.induction (h : Acyclic F) {P : Nat → Prop}
    (hstep : ∀ id < F.length, (∀ child, Holds F id child → P child) → P id) :
    ∀ id < F.length, P id := by
  let inside : Fin F.length → Fin F.length → Prop := fun a b => TransGen (Holds F) b a
  have : IsTrans (Fin F.length) inside := ⟨fun _ _ _ hab hbc => hbc.trans hab⟩
  have : Std.Irrefl inside := ⟨fun a => h.acyclic a⟩
  have hwf := Finite.wellFounded_of_trans_of_irrefl inside
  intro id hid
  refine hwf.induction (C := fun a => P a) ⟨id, hid⟩ fun a ih => ?_
  refine hstep a a.isLt fun child hchild => ?_
  exact ih ⟨child, h.known a child hchild⟩ (.single hchild)

/-- In an acyclic forest every composer has a traversal. -/
theorem exists_traversal (h : Acyclic F) {id : Nat} (hid : id < F.length) :
    ∃ fs, Traversal F [.composer id] fs := by
  refine h.induction (P := fun id => ∃ fs, Traversal F [.composer id] fs) ?_ id hid
  intro id hid ih
  have hitems : ∀ items, (∀ i ∈ items, i ∈ F[id]) → ∃ fs, Traversal F items fs := by
    intro items hmem
    induction items with
    | nil => exact ⟨[], .nil⟩
    | cons i rest ihrest =>
      rw [List.forall_mem_cons] at hmem
      obtain ⟨fs, hfs⟩ := ihrest hmem.2
      cases i with
      | fn f => exact ⟨f :: fs, .fn hfs⟩
      | composer child =>
        obtain ⟨_, hchild⟩ := ih child ⟨F[id], List.getElem?_eq_getElem hid, hmem.1⟩
        cases hchild with
        | composer hget hchild _ => exact ⟨_, .composer hget hchild hfs⟩
  obtain ⟨fs, hfs⟩ := hitems F[id] fun _ hi => hi
  exact ⟨_, .composer (List.getElem?_eq_getElem hid) hfs .nil⟩

/-! ## Chains of a forest -/

/-- The chains of a state are those of a forest. -/
structure Planted (w : World) (F : Forest) : Prop where
  chains : w.composers.map Composer.chain = F.map Item.joined
  ne_nil : ∀ items ∈ F, items ≠ []

theorem Planted.chain_eq (h : Planted w F) {id : Nat} (hid : F[id]? = some items) :
    w.chain id = Item.joined items := by
  have hget := congrArg (·[id]?) h.chains
  simp only [List.getElem?_map, hid, Option.map_some] at hget
  obtain ⟨c, hc, heq⟩ := Option.map_eq_some_iff.mp hget
  rw [World.chain, hc]
  exact heq

theorem Item.joined_append (hitems : items ≠ []) (i : Item) :
    joined (items ++ [i]) = .concat (joined items) i.link := by
  cases items with
  | nil => exact absurd rfl hitems
  | cons j rest => exact List.foldl_concat ..

/-- A chain of items stands for the functions that the items stand for. -/
theorem unrolls_joined {chain : Nat → Option Link} {ls : List Link} (hitems : items ≠ [])
    (h : Unrolls chain (items.map Item.link ++ ls) fs) :
    Unrolls chain (Item.joined items :: ls) fs := by
  have hfold : ∀ (rest : List Item) l, Unrolls chain (l :: (rest.map Item.link ++ ls)) fs →
      Unrolls chain (rest.foldl (fun l j => .concat l j.link) l :: ls) fs := by
    intro rest
    induction rest with
    | nil => exact fun _ h => h
    | cons j rest ih => exact fun l h => ih _ (.concat h)
  cases items with
  | nil => exact absurd rfl hitems
  | cons i rest => exact hfold rest i.link h

theorem Traversal.unrolls (h : Traversal F items fs) (hw : Planted w F) {ls : List Link}
    (hrest : Unrolls w.known ls fs') : Unrolls w.known (items.map Item.link ++ ls) (fs ++ fs') := by
  induction h generalizing ls fs' with
  | nil => exact hrest
  | @fn f rest fs _ ih =>
    cases f with
    | pass => exact .pass (ih hrest)
    | script s => exact .script (ih hrest)
  | @composer id items rest fs fs'' hid _ _ ihitems ih =>
    have hne := hw.ne_nil items (List.mem_of_getElem? hid)
    rw [List.append_assoc]
    exact .composer (congrArg some (hw.chain_eq hid)) (unrolls_joined hne (ihitems (ih hrest)))

/-! ## Registrations -/

theorem flatten_middleware (i : Item) : i.middleware.flatten = pure i.link := by
  cases i <;> rfl

theorem compose_items (items : List Item) :
    compose (items.map Item.middleware) = pure (Item.joined items) := by
  have hafter : ∀ (rest : List Item) first, composeAfter first (rest.map Item.middleware) =
      pure (rest.foldl (fun l j => .concat l j.link) first) := by
    intro rest
    induction rest with
    | nil => exact fun _ => rfl
    | cons j rest ih =>
      intro first
      rw [List.map_cons, composeAfter, flatten_middleware, pure_bind]
      exact ih _
  cases items with
  | nil => rfl
  | cons i rest =>
    rw [List.map_cons, compose, flatten_middleware, pure_bind]
    exact hafter rest i.link

theorem outcome_composerOf (items : List Item) (w : World) :
    (Build.composerOf (items.map Item.middleware)).outcome w =
      (.ok w.composers.length, w.addComposer { chain := Item.joined items }) := by
  rw [Build.composerOf, compose_items, pure_bind]
  rfl

theorem Item.joined_orPass (items : List Item) : joined (orPass items) = joined items := by
  cases items <;> rfl

theorem Item.orPass_ne_nil (items : List Item) : orPass items ≠ [] := by
  cases items <;> nofun

theorem Planted.addComposer (h : Planted w F) (items : List Item) :
    Planted (w.addComposer { chain := Item.joined items }) (F ++ [Item.orPass items]) where
  chains := by
    rw [World.addComposer, List.map_append, List.map_append, h.chains]
    simp only [List.map_cons, List.map_nil, Item.joined_orPass]
  ne_nil := by
    intro items' hmem
    rcases List.mem_append.mp hmem with hmem | hmem
    · exact h.ne_nil items' hmem
    · rw [List.mem_singleton.mp hmem]
      exact Item.orPass_ne_nil items

theorem Planted.append (h : Planted w F) (id child : Nat) :
    Planted (w.append id (.composer child)) (F.modify id (· ++ [.composer child])) where
  chains := by
    apply List.ext_getElem?
    intro i
    have hget := congrArg (·[i]?) h.chains
    simp only [World.append, World.modifyComposer, List.getElem?_map, List.getElem?_modify]
      at hget ⊢
    rcases hc : w.composers[i]? with _ | c <;> rcases hF : F[i]? with _ | items <;>
      rw [hc, hF] at hget
    · rfl
    · cases hget
    · cases hget
    · have hchain : c.chain = Item.joined items := Option.some.inj hget
      have hne := h.ne_nil items (List.mem_of_getElem? hF)
      by_cases hid : id = i
      · simp only [Option.map_eq_map, Option.map_some, if_pos hid, Item.joined_append hne, hchain]
        rfl
      · simp only [Option.map_eq_map, Option.map_some, if_neg hid, hchain]
  ne_nil := by
    intro items hmem
    obtain ⟨i, hi⟩ := List.mem_iff_getElem?.mp hmem
    rw [List.getElem?_modify] at hi
    obtain ⟨items', hF, heq⟩ := Option.map_eq_some_iff.mp hi
    have hne := h.ne_nil items' (List.mem_of_getElem? hF)
    rw [← heq]
    split
    · exact List.append_ne_nil_of_left_ne_nil hne _
    · exact hne

theorem Planted.extend (h : Planted w F) (g : Growth) :
    ∃ id w', g.build.outcome w = (.ok id, w') ∧ Planted w' (g.extend F) := by
  cases g with
  | create items => exact ⟨_, _, outcome_composerOf items w, h.addComposer items⟩
  | use id items =>
    have hlength : w.composers.length = F.length := by
      rw [← List.length_map (f := Composer.chain), h.chains, List.length_map]
    refine ⟨w.composers.length, _, ?_, (h.addComposer items).append id F.length⟩
    rw [Growth.build, Build.use, Build.outcome_bind, outcome_composerOf, hlength]
    rfl

theorem Planted.grow (h : Planted w F) (gs : List Growth) :
    ∃ w', (grow gs).outcome w = (.ok (), w') ∧ Planted w' (gs.foldl Growth.extend F) := by
  induction gs generalizing w F with
  | nil => exact ⟨w, rfl, h⟩
  | cons g rest ih =>
    obtain ⟨id, w₁, hbuild, h₁⟩ := h.extend g
    obtain ⟨w₂, hgrow, h₂⟩ := ih h₁
    refine ⟨w₂, ?_, h₂⟩
    rw [UpdateDispatch.grow, Build.outcome_bind, hbuild]
    exact hgrow

theorem planted_nil (hw : w.composers = []) : Planted w [] where
  chains := by rw [hw]; rfl
  ne_nil := nofun

theorem length_le_foldl (F : Forest) (gs : List Growth) :
    F.length ≤ (gs.foldl Growth.extend F).length := by
  induction gs generalizing F with
  | nil => exact Nat.le_refl _
  | cons g rest ih =>
    refine Nat.le_trans ?_ (ih (g.extend F))
    cases g with
    | create items =>
      rw [Growth.extend, List.length_append]
      exact Nat.le_add_right _ _
    | use id items =>
      rw [Growth.extend, List.length_modify, List.length_append]
      exact Nat.le_add_right _ _

/-! ## Nested and flat composers -/

/-- The middleware of a composer, obtained between registrations, and that of another composer with
the functions `fs`, made after them. -/
def nestedAndFlat (before after : List Growth) (root : Nat) (fs : List Fn) :
    Build (Link × Link) := do
  grow before
  let nested ← (Middleware.composer root).flatten
  grow after
  let flat ← Build.composerOf ((fs.map Item.fn).map Item.middleware)
  pure (nested, ← (Middleware.composer flat).flatten)

theorem traversal_fns (F : Forest) (fs : List Fn) : Traversal F (fs.map Item.fn) fs := by
  induction fs with
  | nil => exact .nil
  | cons f rest ih => exact .fn ih

theorem Traversal.ne_nil (h : Traversal F items fs) (hF : ∀ items ∈ F, items ≠ [])
    (hitems : items ≠ []) : fs ≠ [] := by
  induction h with
  | nil => exact absurd rfl hitems
  | fn => nofun
  | composer hid _ _ ihitems _ =>
    exact List.append_ne_nil_of_left_ne_nil (ihitems (hF _ (List.mem_of_getElem? hid))) _

theorem outcome_nestedAndFlat (hw : w.composers = []) (before after : List Growth) (root : Nat)
    (fs : List Fn) : ∃ w₁,
      (nestedAndFlat before after root fs).outcome w =
        (.ok (.composer root, .composer (forest (before ++ after)).length), w₁) ∧
      Planted w₁ (forest (before ++ after) ++ [Item.orPass (fs.map Item.fn)]) := by
  have hextended : forest (before ++ after) = after.foldl Growth.extend (forest before) :=
    List.foldl_append ..
  obtain ⟨w', hbefore, hplanted⟩ := (planted_nil hw).grow before
  obtain ⟨w'', hafter, hplanted'⟩ := hplanted.grow after
  have hlength : w''.composers.length = (forest (before ++ after)).length := by
    rw [← List.length_map (f := Composer.chain), hplanted'.chains, List.length_map, hextended]
    rfl
  refine ⟨_, ?_, hextended ▸ hplanted'.addComposer (fs.map Item.fn)⟩
  rw [nestedAndFlat, Build.outcome_bind, hbefore]
  dsimp only
  rw [show (Middleware.composer root).flatten = pure (.composer root) from rfl, pure_bind,
    Build.outcome_bind, hafter]
  dsimp only
  rw [Build.outcome_bind, outcome_composerOf, hlength]
  rfl

open Machine

/-- A composer of a forest comes to the same end as the sequence of its functions. -/
theorem Planted.endsWith_iff (hw : Planted w F) {id : Nat} (h : Traversal F [.composer id] fs)
    (hfs : Orderly fs) (x : Nat) {w' : World} {f : Option Fault} :
    EndsWith (ofRoots w [(Link.composer id).run x]) w' f ↔
      EndsWith (ofRoots w [(Process.sequence x fs).ignored]) w' f := by
  have hunrolls : Unrolls w.known [.composer id] (fs ++ []) := h.unrolls hw .nil
  rw [List.append_nil] at hunrolls
  exact endsWith_sequence hunrolls w.agrees_known (hfs.tidy _) x

/-- A composer runs like a single composer with the functions of its traversal: from the same
state, both runs come to an end, in the same state and with the same fault, if any. Its middleware
may have been obtained before some of the registrations. -/
theorem runs_as_traversal (hw : w.composers = []) (before after : List Growth)
    (hforest : Acyclic (forest (before ++ after))) {root : Nat}
    (hroot : root < (forest before).length) :
    ∃ fs, (∀ fs', Traversal (forest (before ++ after)) [.composer root] fs' ↔ fs' = fs) ∧
      ∃ nested flat w₁, (nestedAndFlat before after root fs).outcome w = (.ok (nested, flat), w₁) ∧
        (Orderly fs → ∀ x, ∃ w₂ f, EndsWith (ofRoots w₁ [nested.run x]) w₂ f ∧
          EndsWith (ofRoots w₁ [flat.run x]) w₂ f) := by
  have hlt : root < (forest (before ++ after)).length := by
    rw [forest, List.foldl_append]
    exact Nat.lt_of_lt_of_le hroot (length_le_foldl _ after)
  obtain ⟨fs, hfs⟩ := exists_traversal hforest hlt
  obtain ⟨w₁, houtcome, hplanted⟩ := outcome_nestedAndFlat hw before after root fs
  refine ⟨fs, fun fs' => ⟨fun h => hfs.unique h, fun h => h ▸ hfs⟩, _, _, w₁, houtcome,
    fun horderly x => ?_⟩
  obtain ⟨n, hn⟩ := Process.bounded_sequence x fs
  obtain ⟨w₂, f, hend⟩ := endsWith_of_bounded hn.ignored w₁
  have hnested := hfs.append [Item.orPass (fs.map Item.fn)]
  have hflat : Traversal (forest (before ++ after) ++ [Item.orPass (fs.map Item.fn)])
      [.composer (forest (before ++ after)).length] fs := by
    have hne : (fs.map Item.fn).isEmpty = false := by
      rw [List.isEmpty_eq_false_iff, ne_eq, List.map_eq_nil_iff]
      exact hnested.ne_nil hplanted.ne_nil (List.cons_ne_nil _ _)
    rw [Item.orPass, hne, if_neg Bool.false_ne_true]
    have hfns := Traversal.composer (List.getElem?_concat_length
      (l := forest (before ++ after)) (a := fs.map Item.fn)) (traversal_fns _ fs) .nil
    rwa [List.append_nil] at hfns
  exact ⟨w₂, f, (hplanted.endsWith_iff hnested horderly x).mpr hend,
    (hplanted.endsWith_iff hflat horderly x).mpr hend⟩

/-- A state without composers. -/
def bareWorld : World := { client := none, me := default }

/-- A function that notes a text, calls its continuation and notes another one. -/
def around (before after : String) : Fn :=
  .script { actions := [.note (.str before), .nextCaught, .note (.str after)], plain := false }

/-- A plain function that notes a text and returns the call of its continuation. -/
def through (text : String) : Fn :=
  .script { actions := [.note (.str text), .next], plain := true }

/-- Composer 0 is the root, and composer 1 is its child. -/
def early : List Growth := [.create [], .use 0 [.fn (around "a" "z")]]

/-- The child gets a function before the root gets its next one. -/
def late : List Growth := [.use 1 [.fn (through "b")], .use 0 [.fn (around "c" "y")]]

theorem acyclic_of_lt (h : ∀ id child, Holds F id child → id < child ∧ child < F.length) :
    Acyclic F where
  known id child hholds := (h id child hholds).2
  acyclic id hcycle := by
    have hlt : ∀ {a b}, TransGen (Holds F) a b → a < b := by
      intro a b hab
      induction hab with
      | single hab => exact (h _ _ hab).1
      | tail _ hbc ih => exact Nat.lt_trans ih (h _ _ hbc).1
    exact Nat.lt_irrefl id (hlt hcycle)

theorem acyclic_early_late : Acyclic (forest (early ++ late)) := by
  refine acyclic_of_lt ?_
  rintro id child ⟨items, hid, hmem⟩
  have hforest : forest (early ++ late) = [[.fn .pass, .composer 1, .composer 3],
      [.fn (around "a" "z"), .composer 2], [.fn (through "b")], [.fn (around "c" "y")]] := rfl
  rw [hforest] at hid ⊢
  rcases id with _ | _ | _ | _ | id <;> cases hid <;> simp at hmem
  case zero.refl =>
    obtain rfl | rfl := hmem
    · decide
    · decide
  case succ.zero.refl =>
    subst hmem
    decide

theorem orderly_around (before after : String) {rest : List Fn} (h : Orderly rest) :
    Orderly (around before after :: rest) := by
  refine ⟨fun a ha => ?_, h⟩
  simp only [Script.body, Bool.false_eq_true, if_false, List.mem_cons, List.not_mem_nil, or_false]
    at ha
  obtain rfl | rfl | rfl := ha <;> exact ⟨by simp, by simp⟩

theorem orderly_through (text : String) {rest : List Fn} (h : Orderly rest) :
    Orderly (through text :: rest) := by
  refine ⟨fun a ha => ?_, h⟩
  simp only [Script.body, if_true, Action.untilSuspended, Action.suspends, Bool.false_eq_true,
    if_false, List.mem_cons, List.not_mem_nil, or_false] at ha
  obtain rfl | rfl := ha <;> exact ⟨by simp, by simp⟩

theorem runs_as_traversal_early_late :
    ∃ nested flat w₁ w₂ f,
      (nestedAndFlat early late 0 [.pass, around "a" "z", through "b", around "c" "y"]).outcome
        bareWorld = (.ok (nested, flat), w₁) ∧
      EndsWith (ofRoots w₁ [nested.run 0]) w₂ f ∧ EndsWith (ofRoots w₁ [flat.run 0]) w₂ f := by
  obtain ⟨fs, hfs, nested, flat, w₁, houtcome, hends⟩ := runs_as_traversal (w := bareWorld) rfl
    early late acyclic_early_late (show 0 < (forest early).length by decide)
  have htraversal : Traversal (forest (early ++ late)) [.composer 0]
      [.pass, around "a" "z", through "b", around "c" "y"] := by
    have hb : Traversal (forest (early ++ late)) [.composer 2] [through "b"] :=
      .composer rfl (.fn .nil) .nil
    have hc : Traversal (forest (early ++ late)) [.composer 3] [around "c" "y"] :=
      .composer rfl (.fn .nil) .nil
    exact .composer rfl (.fn (.composer rfl (.fn hb) hc)) .nil
  obtain rfl := (hfs _).mp htraversal
  have horderly : Orderly [.pass, around "a" "z", through "b", around "c" "y"] :=
    orderly_around _ _ (orderly_through _ (orderly_around _ _ trivial))
  obtain ⟨w₂, f, hnested, hflat⟩ := hends horderly 0
  exact ⟨nested, flat, w₁, w₂, f, houtcome, hnested, hflat⟩

/-! ## What tells nested and flat composers apart -/

/-- The middleware of a composer and of a flat one with the functions of its traversal come to
different ends. -/
def ToldApart (w : World) (gs : List Growth) (root : Nat) (fs : List Fn) : Prop :=
  Traversal (forest gs) [.composer root] fs ∧
    ∃ nested flat w₁, (nestedAndFlat gs [] root fs).outcome w = (.ok (nested, flat), w₁) ∧
      ¬ ∃ w₂ f, EndsWith (ofRoots w₁ [nested.run 0]) w₂ f ∧ EndsWith (ofRoots w₁ [flat.run 0]) w₂ f

theorem not_endsWith_of_events {m m' : Machine} {f f' : Option Fault} (h : EndsWith m w f)
    (h' : EndsWith m' w' f') (hne : w.events.length ≠ w'.events.length) :
    ¬ ∃ w₂ f₂, EndsWith m w₂ f₂ ∧ EndsWith m' w₂ f₂ := by
  rintro ⟨w₂, f₂, h₂, h₂'⟩
  obtain ⟨rfl, -⟩ := h.unique h₂
  obtain ⟨rfl, -⟩ := h'.unique h₂'
  exact hne rfl

/-- A function that calls its continuation and does not await it. -/
def dropper : Fn := .script { actions := [.nextDropped, .note (.str "a")], plain := false }

/-- A plain function, which runs when it is called. -/
def plainNote : Fn := .script { actions := [.note (.str "b")], plain := true }

/-- A function that adds another one to a composer while it runs. -/
def grower : Fn :=
  .script
    { actions :=
        [.step (.register "c" none (.use [.script [.note (.str "b")] false])), .next]
      plain := false }

/-- Two cases in which composers do not run like their traversal: a dropped call of a composer does
not start the plain function in it, and a composer that grows during the run has its new function
run. -/
theorem composers_told_apart :
    ToldApart bareWorld [.create [], .use 0 [.fn dropper], .use 0 [.fn plainNote]] 0
      [.pass, dropper, plainNote] ∧
    ToldApart { bareWorld with registers := [("c", .composer 0)] }
      [.create [], .create [.fn grower, .composer 0]] 1 [grower, .pass] := by
  refine ⟨⟨?_, ?_⟩, ⟨?_, ?_⟩⟩
  · exact .composer rfl (.fn (.composer rfl (.fn .nil) (.composer rfl (.fn .nil) .nil))) .nil
  · refine ⟨_, _, _, rfl, ?_⟩
    exact not_endsWith_of_events ⟨60, .ok .null, rfl, rfl, rfl, rfl⟩
      ⟨60, .ok .null, rfl, rfl, rfl, rfl⟩ (by decide)
  · exact .composer rfl (.fn (.composer rfl (.fn .nil) .nil)) .nil
  · refine ⟨_, _, _, rfl, ?_⟩
    exact not_endsWith_of_events ⟨60, .ok .null, rfl, rfl, rfl, rfl⟩
      ⟨60, .ok .null, rfl, rfl, rfl, rfl⟩ (by decide)

end UpdateDispatch
