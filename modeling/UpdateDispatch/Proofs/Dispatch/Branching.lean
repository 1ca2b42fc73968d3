import UpdateDispatch.Proofs.Dispatch.Forks
import UpdateDispatch.Proofs.Dispatch.Listeners
import UpdateDispatch.Proofs.Dispatch.Refusals

/-!
# The rest of a chain with a branch beside it, and alone

Where a fork stands in a chain, the same chain could pass on to the rest: then no functions are
registered there (`Build.unforked`). The two states are variants (`Variants.forking`) that show the
same to processes (`Variants.Shows`), whatever is noted and logged in them. A fork runs its branch
beside what a link runs that passes (`Variants.faithful_forking`).
-/

namespace UpdateDispatch

open Process

namespace Variants

/-! ## States that show the same -/

/-- Variants of a state that show the same to processes. More may have been noted in one of them. -/
structure Shows (V : Variants) (N : Numbers) (w w' : World) : Prop where
  stores : V.Stores w w'
  client : w'.client = w.client
  contexts : w'.contexts = w.contexts
  marks : Flags N.marks w.marks w'.marks

variable {V : Variants} {N : Numbers} {w w' v : World} {side child id : Nat}

theorem views_shows : V.Views V.Shows where
  basis _ :=
    { stores := fun h => h.stores
      accessed := fun h _ => { h with stores := { h.stores with } }
      setComposers := fun h _ _ hstores => { h with stores := hstores }
      setRegisters := fun h _ _ hstores => { h with stores := hstores } }
  client h := h.client
  contexts h := h.contexts
  marked h hi := h.marks.getD hi
  guard h _ _ := { h with }
  record h _ := { h with stores := { h.stores with } }
  log h _ := { h with stores := { h.stores with } }
  setContext h x c := { h with
    stores := { h.stores with }
    contexts := congrArg (·.set x c) h.contexts }
  addContext h c := { h with
    stores := { h.stores with }
    contexts := congrArg (· ++ [c]) h.contexts }
  setMark h hi _ := { h with stores := { h.stores with }, marks := h.marks.set hi rfl }
  addMark h := { h with stores := { h.stores with }, marks := h.marks.add rfl }

/-- Variants whose composers have the same numbers. -/
def numbered (alike : Link → Link → Prop) (beside : Process → Prop) : Variants :=
  { shared := 0, alike, beside }

section Numbered

variable {alike : Link → Link → Prop} {beside : Process → Prop}

theorem composers_numbered (i : Nat) : (numbered alike beside).Composers i i := .inr (paired_zero i)

theorem same_self_numbered (c : Composer) : (numbered alike beside).Same c c := by
  refine ⟨.same (c.chain.same_self fun id _ => composers_numbered id), ?_⟩
  rcases c.bot with _ | b
  · exact .none
  · exact .some (.refl b)

theorem stores_self_numbered (w : World) : (numbered alike beside).Stores w w where
  composers {i i'} hi := by
    obtain rfl : i' = i := by
      rcases hi with ⟨-, rfl⟩ | ⟨k, rfl, rfl⟩ <;> rfl
    rcases w.composers[i']? with _ | c
    · exact .none
    · exact .some (same_self_numbered c)
  lengths := paired_zero _
  left := nofun
  right := nofun
  registers := List.forall₂_same.mpr fun r _ =>
    ⟨rfl, r.2.same_self fun id _ => composers_numbered id⟩
  me := rfl

end Numbered

/-- A state shows itself, as far as marks are paired with themselves. -/
theorem shows_self (w : World)
    (hmarks : ∀ {i i'}, (i, i') ∈ N.marks → i' = i ∧ i < w.marks.length) : plain.Shows N w w where
  stores := stores_self_numbered w
  client := rfl
  contexts := rfl
  marks :=
    { items := fun hi => by
        obtain ⟨rfl, hlt⟩ := hmarks hi
        exact ⟨_, _, List.getElem?_eq_getElem hlt, List.getElem?_eq_getElem hlt, rfl⟩
      single := fun hi hj => by
        rw [(hmarks hi).1, (hmarks hj).1] }

/-! ## Forks -/

/-- A state with forks to the branch `side`, and a state with links in their places that pass. -/
def forking (side : Nat) : Variants :=
  numbered (fun l l' => l = .fork side ∧ l' = .pass) fun b => ∃ x, b = dispatch side x leaf

variable {p p' : Process} {k k' : Outcome → Process} {x : Nat}

/-- What follows a fork that ends as the rest of its chain does. -/
theorem joined_andThen_left (s : Settled) (hright : Outcome.fault? s.right = none)
    (k : Outcome → Process) :
    (joined s).andThen k = match s.left with
      | .ok _ => k (.ok .null)
      | .error f => k (.error f) := by
  obtain ⟨left, right, leftFirst⟩ := s
  cases right with
  | error f => cases hright
  | ok v => cases left <;> rfl

/-- A fork runs its branch beside what is called. -/
theorem Later.forked (h : (forking side).Later (forking side).Shows N p p')
    (hk : (forking side).Follows (forking side).Shows N k k') :
    (forking side).Later (forking side).Shows N ((p.onCall (Machine.forked side x)).andThen k)
      (p'.andThen k') := by
  have hbeside : (forking side).beside (dispatch side x leaf) := ⟨x, rfl⟩
  rw [onCall_andThen, andThen_eq_onCall]
  refine h.onCall views_shows fun N₁ r r' hN hr => ?_
  cases hr with
  | raised f => exact (hk.mono hN) _ _ (.refl _)
  | value v =>
    intro N₂ w w' hN₂ hw hkept
    have hvalue : (forking side).Later (forking side).Shows N₂ (.value v) (.value v) :=
      later_value v
    have hnow : (forking side).Now (forking side).Shows N₂ w w' _ _ :=
      .aside hbeside hvalue (hk.mono (hN.trans hN₂))
    exact hnow
  | @awaitable q q' hq =>
    intro N₂ w w' hN₂ hw hkept
    exact .aside hbeside (hq.mono hN₂) (hk.mono (hN.trans hN₂))

theorem faithful_forking (side : Nat) : (forking side).Faithful (forking side).Shows := by
  rintro _ _ ⟨rfl, rfl⟩ N x next next' k k' hnext hk
  have h := hnext.later.forked (x := x) hk
  rwa [← Machine.fork_eq_onCall] at h

end Variants

/-! ## Registration -/

namespace Build

open Variants

variable {w w₁ : World} {id side : Nat} {mw : List Middleware}

/-- The branch of a fork, and no functions in the place where it would be forked. -/
def unforked (id : Nat) (mw : List Middleware) : Build Nat := do
  let side ← composerOf mw
  let _ ← use id []
  pure side

/-- A fork, and no functions in its place. -/
theorem exists_unforked (h : (fork id mw).outcome w = (.ok side, w₁)) :
    ∃ w₂, (unforked id mw).outcome w = (.ok side, w₂) ∧ (forking side).Shows {} w₁ w₂ := by
  obtain ⟨side', v, hside, h⟩ := exists_of_outcome_bind h
  have hfork : (do let _ ← useLink id (.fork side'); pure side' : Build Nat).outcome v =
      (.ok side', v.hook id (.fork side')) := rfl
  rw [hfork] at h
  cases h
  refine ⟨v.hook id .pass, ?_, ?_⟩
  · rw [unforked, outcome_bind, hside]
    rfl
  · have hstores : (forking side).Stores v v := stores_self_numbered v
    have hnew : (forking side).Same { chain := .fork side } { chain := .pass } :=
      ⟨.alike ⟨rfl, rfl⟩, .none⟩
    exact
      { stores := (hstores.addComposer hnew).modifyComposer (composers_numbered id) fun _ _ hc =>
          hc.append (.composer (composers_numbered _))
        client := rfl
        contexts := rfl
        marks := .nil _ _ _ }

end Build

end UpdateDispatch
