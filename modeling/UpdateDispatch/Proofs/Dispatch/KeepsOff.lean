import UpdateDispatch.Proofs.Dispatch.Branching

/-!
# Processes that keep to themselves

A process that was started beside others has guards and marks of its own. `Trait.keepsOff` says that
it uses no guard and changes no mark of a dispatch whose numbers are given, whatever it does: it
does the same as itself (`Variants.Now`), with numbers that are not among those. No step leads out
of that (`Trait.upheld_keepsOff`).
-/

namespace UpdateDispatch

open Process Variants

/-- Pairs of guards and marks with themselves, among the first `g` guards and the first `n` marks,
but not of those in `N`. -/
structure Numbers.Off (N : Numbers) (g n : Nat) (M : Numbers) : Prop where
  guards : ∀ {i i'}, (i, i') ∈ M.guards → i' = i ∧ i < g ∧ ∀ j, (i, j) ∉ N.guards
  marks : ∀ {i i'}, (i, i') ∈ M.marks → i' = i ∧ i < n ∧ ∀ j, (i, j) ∉ N.marks
  guards_lt : ∀ {i j}, (i, j) ∈ N.guards → i < g
  marks_lt : ∀ {i j}, (i, j) ∈ N.marks → i < n

variable {N M : Numbers} {g g' n n' : Nat}

theorem Numbers.Off.mono (h : N.Off g n M) (hg : g ≤ g') (hn : n ≤ n') : N.Off g' n' M where
  guards hi := ⟨(h.guards hi).1, (h.guards hi).2.1.trans_le hg, (h.guards hi).2.2⟩
  marks hi := ⟨(h.marks hi).1, (h.marks hi).2.1.trans_le hn, (h.marks hi).2.2⟩
  guards_lt hi := (h.guards_lt hi).trans_le hg
  marks_lt hi := (h.marks_lt hi).trans_le hn

/-- The guard that is made next is of nobody yet. -/
theorem Numbers.Off.guard (h : N.Off g n M) : N.Off (g + 1) n (M.guard g g) where
  guards hi := by
    rcases List.mem_cons.mp hi with heq | hi
    · cases heq
      exact ⟨rfl, Nat.lt_succ_self g, fun j hj => Nat.lt_irrefl g (h.guards_lt hj)⟩
    · obtain ⟨heq, hlt, hoff⟩ := h.guards hi
      exact ⟨heq, Nat.lt_succ_of_lt hlt, hoff⟩
  marks := h.marks
  guards_lt hi := Nat.lt_succ_of_lt (h.guards_lt hi)
  marks_lt := h.marks_lt

/-- The state shows itself to a process with numbers of its own. -/
theorem Numbers.Off.shows {w : World} (h : N.Off g w.marks.length M) : plain.Shows M w w :=
  shows_self w fun hi => ⟨(h.marks hi).1, (h.marks hi).2.1⟩

/-- What is done to a state with numbers of one's own leaves the numbers to their owners. -/
theorem Numbers.Off.deed {M₁ : Numbers} {w v : World} (h : N.Off g w.marks.length M)
    (hdeed : Deed M M₁ w w v v) (hguards : M₁.guards = M.guards) : N.Off g v.marks.length M₁ where
  guards hi := h.guards (hguards ▸ hi)
  marks hi := by
    rcases hdeed.made hi with hi | ⟨rfl, rfl, hlt⟩
    · obtain ⟨heq, hlt, hoff⟩ := h.marks hi
      exact ⟨heq, hlt.trans_le hdeed.length, hoff⟩
    · exact ⟨rfl, hlt, fun j hj => Nat.lt_irrefl _ (h.marks_lt hj)⟩
  guards_lt := h.guards_lt
  marks_lt hi := (h.marks_lt hi).trans_le hdeed.length

namespace Trait

open Machine (Runs Parks)

variable {w w' : World} {p q : Process}

/-- A process that uses no guard and changes no mark of the numbers `N`. -/
def keepsOff (N : Numbers) : Trait where
  now g w p := ∃ M, N.Off g w.marks.length M ∧ plain.Now plain.Shows M w w p p
  later g n p := ∃ M, N.Off g n M ∧ plain.Later plain.Shows M p p
  mono := fun ⟨M, hM, hp⟩ hg hn => ⟨M, hM.mono hg hn, hp⟩
  of_later := fun ⟨M, hM, hp⟩ => ⟨M, hM, hp _ _ _ (.refl M) hM.shows trivial⟩

theorem keepsOff_dispatch (hN : N.Off g n {}) (i x : Nat) :
    (keepsOff N).later g n (dispatch i x leaf) :=
  ⟨{}, hN, later_dispatch views_shows (composers_plain i) x handed_leaf⟩

theorem later_of_both {l r : Process} {k : Settled → Process}
    (hp : plain.Now plain.Shows M w w (both l r k) q) (hq : q = both l r k) :
    plain.Later plain.Shows M l l ∧ plain.Later plain.Shows M r r ∧
      ∀ s, plain.Later plain.Shows M (k s) (k s) := by
  cases hp with
  | race _ hl hk =>
    injection hq with heq _ hnext
    subst heq
    refine ⟨hl, hl, fun s => ?_⟩
    have hs := hk (Outcome.fault? s.left) (Outcome.fault? s.right)
    rwa [congrFun hnext s] at hs
  | fork hl hr hk =>
    injection hq with heq hdispatch hnext
    subst heq hnext
    rw [hdispatch] at hr
    exact ⟨hl, hr, hk⟩
  | aside hb => exact hb.elim

theorem upheld_keepsOff (N : Numbers) : (keepsOff N).Upheld := by
  rintro g w p ⟨M, hM, hp⟩
  have hnow : ∀ {q}, plain.Later plain.Shows M q q → plain.Now plain.Shows M w w q q :=
    fun hq => hq _ _ _ (.refl M) hM.shows trivial
  constructor
  · intro g' w' q hruns
    cases hruns with
    | deferred =>
      cases hp with
      | deferred hq => exact ⟨⟨M, hM, hnow hq⟩, Nat.le_refl _⟩
    | read =>
      cases hp with
      | read hq => exact ⟨⟨M, hM, hq⟩, Nat.le_refl _⟩
    | write =>
      cases hp with
      | write _ hguards _ hdeed hq =>
        exact ⟨⟨_, hM.deed hdeed hguards, hq trivial⟩, hdeed.length⟩
    | newGuard =>
      cases hp with
      | newGuard hq => exact ⟨⟨_, hM.guard, hq g g⟩, Nat.le_refl _⟩
    | checkGuard used =>
      cases hp with
      | checkGuard _ hq => exact ⟨⟨M, hM, hq used⟩, Nat.le_refl _⟩
    | useGuard =>
      cases hp with
      | useGuard _ hq => exact ⟨⟨M, hM, hq⟩, Nat.le_refl _⟩
    | enter =>
      cases hp with
      | enter hl hs hnext hk =>
        cases hl with
        | chains hl =>
          exact ⟨⟨M, hM, hnow (later_entered views_shows (faithful_plain _) hl ⟨hs, hnext⟩ hk)⟩,
            Nat.le_refl _⟩
        | left hc => cases hc
        | right hc => cases hc
  · intro j a q ha hparks
    cases hparks with
    | pause =>
      cases hp with
      | pause hq => exact ⟨M, hM, hq⟩
    | left | right => exact absurd rfl (ha _)
    | join s => exact ⟨M, hM, (later_of_both hp rfl).2.2 s⟩
  · intro j a left q ha hparks
    cases hparks with
    | pause | join s => exact absurd rfl (ha _)
    | left => exact ⟨M, hM, (later_of_both hp rfl).1⟩
    | right => exact ⟨M, hM, (later_of_both hp rfl).2.1⟩
  · rintro q k rfl
    cases hp

/-- The marks of the numbers stay as they are. -/
theorem marks_of_keepsOff {f : World → World} (h : (keepsOff N).now g w (.write f p)) {i j : Nat}
    (hi : (i, j) ∈ N.marks) : (f w).marks[i]? = w.marks[i]? := by
  obtain ⟨M, hM, hp⟩ := h
  cases hp with
  | write _ _ _ hdeed _ =>
    exact hdeed.spared (hM.marks_lt hi) fun i' hi' => (hM.marks hi').2.2 j hi

/-- The guards of the numbers are not used. -/
theorem ne_of_keepsOff {i j k : Nat} (h : (keepsOff N).now g w (.useGuard i p))
    (hj : (j, k) ∈ N.guards) : i ≠ j := by
  obtain ⟨M, hM, hp⟩ := h
  cases hp with
  | useGuard hi _ =>
    rintro rfl
    exact (hM.guards hi).2.2 k hj

/-- What keeps off numbers keeps off others as well, if those have been given out only now. -/
theorem keepsOff_of_new {N' : Numbers} (h : (keepsOff N).later g n p) (hg : g ≤ g') (hn : n ≤ n')
    (hguards : ∀ {i j}, (i, j) ∈ N'.guards → (i, j) ∈ N.guards ∨ g ≤ i ∧ i < g')
    (hmarks : ∀ {i j}, (i, j) ∈ N'.marks → (i, j) ∈ N.marks ∨ n ≤ i ∧ i < n') :
    (keepsOff N').later g' n' p := by
  obtain ⟨M, hM, hp⟩ := h
  refine ⟨M, ⟨fun {i i'} hi => ?_, fun {i i'} hi => ?_, fun hi => ?_, fun hi => ?_⟩, hp⟩
  · obtain ⟨heq, hlt, hoff⟩ := hM.guards hi
    exact ⟨heq, hlt.trans_le hg, fun j hj => (hguards hj).elim (hoff j) fun hnew => by omega⟩
  · obtain ⟨heq, hlt, hoff⟩ := hM.marks hi
    exact ⟨heq, hlt.trans_le hn, fun j hj => (hmarks hj).elim (hoff j) fun hnew => by omega⟩
  · exact (hguards hi).elim (fun hold => (hM.guards_lt hold).trans_le hg) (·.2)
  · exact (hmarks hi).elim (fun hold => (hM.marks_lt hold).trans_le hn) (·.2)

end Trait

end UpdateDispatch
