import UpdateDispatch.Proofs.Dispatch.Progress

/-!
# A run whose branches have come to an end

When no branch goes on any more, the rest does not wait for one for ever. Every turn that does not
carry the rest on is gone after a while (`Resting.drain`), and what the rest does between two steps
of the lone process follows the tree of its process and then the joins on the way
(`Underway.comes_of_ended`). So the machine comes to the end of the lone process
(`Abreast.arrives_of_lone`).
-/

namespace UpdateDispatch

open Relation

namespace Machine

open Process

/-- From here on, no branch goes on. -/
def BranchesOver (side : Nat) (m₀ m : Machine) : Prop :=
  ∀ ⦃m'⦄, ReflTransGen Goes m m' → ¬ BranchGoes side m₀ m'

variable {side : Nat} {m₀ m m' : Machine} {N : Numbers} {j : Nat} {a b : Owner}
  {p q : Process} {ws extra : List Wait} {ts rest : List Turn} {t : Turn} {V : Variants} {v : World}
  {K L : Outcome → Process} {s s₁ : Lone} {o : Outcome} {other : Option Fault}

theorem BranchesOver.later (h : BranchesOver side m₀ m) (hgo : ReflTransGen Goes m m') :
    BranchesOver side m₀ m' :=
  fun _ hgo' => h (hgo.trans hgo')

/-! ## Turns of others end -/

/-- What comes of the turns that do not carry the rest on: a turn that does is the next one, or the
rest has waited for one of them and has a turn again. -/
inductive Drains (V : Variants) (side : Nat) (m₀ : Machine) (v : World) (N : Numbers)
    (ws : List Wait) (a : Owner) (K : Outcome → Process) (extra : List Wait) (ts : List Turn)
    (m : Machine) (s : Lone) : Prop
  | own {m₁ : Machine} {t : Turn} {ts' after : List Turn} (hts : ts = t :: ts')
      (hgo : ReflTransGen Goes m m₁) (hfocus : m₁.focus = none)
      (hready : m₁.ready = t :: (ts' ++ after))
      (hafter : ∀ t ∈ after, Loose side m₀ N m₁ (extra ++ ws) t)
      (h : Resting V side m₀ v N ws a K extra ts m₁ s)
  | returns {m₁ : Machine} {s₁ : Lone} {j : Nat} {other : Option Fault} {J : Join} {e : Settled}
      (hextra : extra = [(j, other)]) (hgo : ReflTransGen Goes m m₁)
      (hJ : m₁.joins[j]? = some J) (hs : ReflTransGen Lone.Goes s s₁)
      (h : Resting V side m₀ v N ws a K [] [.resume a (J.next e)] m₁ s₁)

theorem Resting.idle (h : Resting V side m₀ v N ws a K extra ts m s)
    (hover : BranchesOver side m₀ m) : m.focus = none := by
  rcases hfocus : m.focus with _ | ⟨b, p⟩
  · rfl
  · obtain ⟨j, hruns⟩ := h.focus hfocus
    exact absurd (.inl ⟨b, p, hfocus, hruns.owner.inBranch hruns.branch⟩) (hover .refl)

theorem Resting.drain (hm₀ : Reachable m₀) (hlive : Lively m₀)
    (h : Resting V side m₀ v N ws a K extra ts m s) (hover : BranchesOver side m₀ m) :
    Drains V side m₀ v N ws a K extra ts m s := by
  induction hload : load m.ready using Nat.strong_induction_on generalizing m with
  | _ n ih =>
    have hidle := h.idle hover
    obtain ⟨t, rest, hready⟩ := h.exists_ready hlive hidle
    have hamong := h.ready
    rw [hready] at hamong
    rcases hamong.cons with ⟨ht, hrest⟩ | ⟨ts', after, rfl, rfl, hafter⟩
    · cases h.loose hm₀ hidle hready hrest ht with
      | stays hgo hless h₁ =>
        have hgoes := hgo.to_reflTransGen
        obtain ⟨-, hlt⟩ := hless (hover .refl)
        cases ih _ (hload ▸ hlt) h₁ (hover.later hgoes) rfl with
        | own hts hgo' hfocus hready hafter h₂ =>
          exact .own hts (hgoes.trans hgo') hfocus hready hafter h₂
        | returns hextra hgo' hJ hs h₂ => exact .returns hextra (hgoes.trans hgo') hJ hs h₂
      | returns hextra hJ hgo hs h₁ =>
        obtain ⟨J', hJ', -, hnext⟩ := join_of_goes (.single hgo) hJ
        rw [← hnext] at h₁
        exact .returns hextra (.single hgo) hJ' hs h₁
    · exact .own rfl .refl hidle hready hafter h

/-! ## What the rest comes to -/

/-- The machine comes to the end of the lone process, to a branch to which both come, or to where
the lone process has gone on. -/
inductive Comes (V : Variants) (side : Nat) (m₀ : Machine) (v : World) (m : Machine) (s : Lone) :
    Prop
  | closes {m₁ : Machine} {o : Outcome} (hgo : ReflTransGen Goes m m₁)
      (h : Abreast V side m₀ v m₁ s) (hfocus : m₁.focus = some (.root 0, ended o)) (hs : s.Ended o)
  | forks {m₁ : Machine} (hgo : ReflTransGen Goes m m₁) (hm : ReachesFork m₁) (hs : s.AtFork)
  | moves {m₁ : Machine} {s₁ : Lone} (hgo : ReflTransGen Goes m m₁) (hs : TransGen Lone.Goes s s₁)
      (h : Abreast V side m₀ v m₁ s₁)

theorem Comes.of_reaches (h : Comes V side m₀ v m' s) (hgo : ReflTransGen Goes m m') :
    Comes V side m₀ v m s := by
  cases h with
  | closes hgo' h hfocus hs => exact .closes (hgo.trans hgo') h hfocus hs
  | forks hgo' hm hs => exact .forks (hgo.trans hgo') hm hs
  | moves hgo' hs h => exact .moves (hgo.trans hgo') hs h

/-- The lone process may have gone on already. -/
theorem comes_of_lone (hs : ReflTransGen Lone.Goes s s₁) (h : Abreast V side m₀ v m s₁)
    (hcomes : s₁ = s → Comes V side m₀ v m s) : Comes V side m₀ v m s := by
  rcases reflTransGen_iff_eq_or_transGen.mp hs with heq | hs
  · exact hcomes heq
  · exact .moves .refl hs h

section Over

variable (hV : V.Forks side) (hm₀ : Reachable m₀) (hlive : Lively m₀)

include hV hm₀ hlive

/-- The rest has a turn, and comes to run. -/
theorem Resting.comes_of_runs (h : Resting V side m₀ v N ws a K [] [.resume b p] m s)
    (hover : BranchesOver side m₀ m)
    (hruns : ∀ {m₁}, ReflTransGen Goes m m₁ → Underway V side m₀ v N ws a K p m₁ s →
      Comes V side m₀ v m₁ s) : Comes V side m₀ v m s := by
  cases h.drain hm₀ hlive hover with
  | own hts hgo hfocus hready hafter h₁ =>
    cases hts
    obtain ⟨m₂, hgo', h₂⟩ := h₁.take_turn hV hfocus hready hafter
    exact (hruns (hgo.tail hgo') h₂).of_reaches (hgo.tail hgo')
  | returns hextra => cases hextra

/-- The rest has a turn to go on after a join, unless the lone process has gone on. -/
theorem Resting.comes_of_returns (h : Resting V side m₀ v N ws a K [] [.resume b p] m s₁)
    (hs : ReflTransGen Lone.Goes s s₁) (hover : BranchesOver side m₀ m)
    (hruns : ∀ {m₁}, ReflTransGen Goes m m₁ → Underway V side m₀ v N ws a K p m₁ s →
      Comes V side m₀ v m₁ s) : Comes V side m₀ v m s := by
  refine comes_of_lone hs h.abreast ?_
  rintro rfl
  exact h.comes_of_runs hV hm₀ hlive hover hruns

/-- The rest has told a join, and comes to run what follows it. -/
theorem Resting.comes_of_told {J : Join} (h : Resting V side m₀ v N ws a K [(j, other)] [] m s)
    (hJ : m.joins[j]? = some J) (hover : BranchesOver side m₀ m)
    (hruns : ∀ {m₁ a K e}, ReflTransGen Goes m m₁ → Underway V side m₀ v N ws a K (J.next e) m₁ s →
      Comes V side m₀ v m₁ s) : Comes V side m₀ v m s := by
  cases h.drain hm₀ hlive hover with
  | own hts => cases hts
  | returns hextra hgo hJ₁ hs h₁ =>
    cases hextra
    obtain ⟨J₁, hJ₁', -, hnext⟩ := join_of_goes hgo hJ
    rw [hJ₁'] at hJ₁
    cases hJ₁
    rw [hnext] at h₁
    have hcomes := h₁.comes_of_returns hV hm₀ hlive hs (hover.later hgo) fun hgo' =>
      hruns (hgo.trans hgo')
    exact hcomes.of_reaches hgo

/-- The rest has ended as a side of a join, and comes to run what follows the join. -/
theorem Resting.comes_of_telling {J : Join}
    (h : Resting V side m₀ v N ((j, other) :: ws) a K [] [.settled j true o] m s)
    (hJ : m.joins[j]? = some J) (hover : BranchesOver side m₀ m)
    (hruns : ∀ {m₁ a K e}, ReflTransGen Goes m m₁ → Underway V side m₀ v N ws a K (J.next e) m₁ s →
      Comes V side m₀ v m₁ s) : Comes V side m₀ v m s := by
  cases h.drain hm₀ hlive hover with
  | own hts hgo hfocus hready hafter h₁ =>
    cases hts
    cases h₁.tell hm₀ hfocus hready hafter with
    | waits hws hgo' h₂ =>
      cases hws
      have hgoes := hgo.tail hgo'
      obtain ⟨J₂, hJ₂, -, hnext⟩ := join_of_goes hgoes hJ
      have hcomes := h₂.comes_of_told hV hm₀ hlive hJ₂ (hover.later hgoes) fun hgo' => by
        rw [hnext]
        exact hruns (hgoes.trans hgo')
      exact hcomes.of_reaches hgoes
    | returns hws hJ₁ hgo' hs h₂ =>
      cases hws
      have hgoes := hgo.tail hgo'
      obtain ⟨J₁, hJ₁', -, hnext⟩ := join_of_goes hgo hJ
      rw [hJ₁'] at hJ₁
      cases hJ₁
      rw [hnext] at h₂
      have hcomes := h₂.comes_of_returns hV hm₀ hlive hs (hover.later hgoes) fun hgo' =>
        hruns (hgoes.trans hgo')
      exact hcomes.of_reaches hgoes
  | returns hextra => cases hextra

/-- The process of a side has ended, and the rest comes to run what follows its join. -/
theorem Underway.comes_of_side {J : Join}
    (h : Underway V side m₀ v N ((j, other) :: ws) a K (ended o) m s) (hJ : m.joins[j]? = some J)
    (hover : BranchesOver side m₀ m)
    (hruns : ∀ {m₁ a K e}, ReflTransGen Goes m m₁ → Underway V side m₀ v N ws a K (J.next e) m₁ s →
      Comes V side m₀ v m₁ s) : Comes V side m₀ v m s := by
  obtain ⟨m₁, hgo, h₁⟩ := h.ends_side
  obtain ⟨J₁, hJ₁, -, hnext⟩ := join_of_goes (.single hgo) hJ
  have hcomes := h₁.comes_of_telling hV hm₀ hlive hJ₁ (hover.later (.single hgo)) fun hgo' => by
    rw [hnext]
    exact hruns (.head hgo hgo')
  exact hcomes.of_reaches (.single hgo)

omit hm₀ hlive in
/-- Only what has ended, what is awaited and what starts a branch leaves the lone process where it
is. -/
theorem Underway.comes_of_step (h : Underway V side m₀ v N ws a K p m s)
    (hends : ∀ {N a K o}, Underway V side m₀ v N ws a K (ended o) m s → Comes V side m₀ v m s)
    (hawaited : ∀ {q m₁ N a K}, p = deferred q → Goes m m₁ →
      Underway V side m₀ v N ws a K q m₁ s → Comes V side m₀ v m₁ s)
    (hsplits : ∀ {l r k m₁ N j J L}, p = both l r k → Goes m m₁ → m₁.joins[j]? = some J →
      J.next = k → Resting V side m₀ v N ((j, none) :: ws) (.side j true) L []
        [.resume (.side j true) l] m₁ s → Comes V side m₀ v m₁ s) : Comes V side m₀ v m s := by
  cases h.step hV with
  | closes hfocus hs => exact .closes .refl h.abreast hfocus hs
  | forks hm hs => exact .forks .refl hm hs
  | moves hgo hs h₁ => exact .moves (.single hgo) hs h₁
  | awaited hp hgo h₁ => exact (hawaited hp hgo h₁).of_reaches (.single hgo)
  | ends hp hgo h₁ =>
    subst hp
    exact hends h
  | splits hp hgo hJ hnext h₁ => exact (hsplits hp hgo hJ hnext h₁).of_reaches (.single hgo)

/-- What the rest comes to follows from what it comes to when its process has ended. -/
theorem Underway.comes_of_ends (h : Underway V side m₀ v N ws a K p m s)
    (hover : BranchesOver side m₀ m)
    (hends : ∀ {m₁ N a K o}, ReflTransGen Goes m m₁ → Underway V side m₀ v N ws a K (ended o) m₁ s →
      Comes V side m₀ v m₁ s) : Comes V side m₀ v m s := by
  induction p generalizing m N ws a K with
  | deferred q ih =>
    refine h.comes_of_step hV (hends .refl) (fun hp hgo h₁ => ?_) nofun
    cases hp
    exact ih h₁ (hover.later (.single hgo)) fun hgo' => hends (.head hgo hgo')
  | both l r k ihl _ ihk =>
    refine h.comes_of_step hV (hends .refl) nofun fun {_ _ _ m₁ _ j J _} hp hgo hJ hnext h₁ => ?_
    cases hp
    have hover₁ := hover.later (.single hgo)
    refine h₁.comes_of_runs hV hm₀ hlive hover₁ fun {m₂} hgo₂ h₂ => ?_
    refine ihl h₂ (hover₁.later hgo₂) fun {m₃ _ _ _ _} hgo₃ h₃ => ?_
    obtain ⟨J₃, hJ₃, -, hnext₃⟩ := join_of_goes (hgo₂.trans hgo₃) hJ
    have hover₃ := hover₁.later (hgo₂.trans hgo₃)
    refine h₃.comes_of_side hV hm₀ hlive hJ₃ hover₃ fun {m₄ _ _ e} hgo₄ h₄ => ?_
    rw [hnext₃, hnext] at h₄
    exact ihk e h₄ (hover₃.later hgo₄) fun hgo₅ =>
      hends (.head hgo (hgo₂.trans (hgo₃.trans (hgo₄.trans hgo₅))))
  | _ => exact h.comes_of_step hV (hends .refl) nofun nofun

/-- The process of the rest has ended, and the machine comes to what follows the joins on the way.
-/
theorem Underway.comes_of_ended (h : Underway V side m₀ v N ws a K (ended o) m s)
    (hover : BranchesOver side m₀ m) : Comes V side m₀ v m s := by
  induction ws generalizing m N a K o with
  | nil =>
    have hs := h.process_eq
    have hfocus := h.focus
    have hwaits := h.waits
    cases hwaits with
    | root => exact .closes .refl h.abreast hfocus hs
  | cons w ws ih =>
    have hwaits := h.waits
    cases hwaits with
    | side _ hJ =>
      refine h.comes_of_side hV hm₀ hlive hJ hover fun hgo h₁ => ?_
      refine h₁.comes_of_ends hV hm₀ hlive (hover.later hgo) fun hgo' h₂ => ?_
      exact ih h₂ (hover.later (hgo.trans hgo'))

theorem Underway.comes (h : Underway V side m₀ v N ws a K p m s) (hover : BranchesOver side m₀ m) :
    Comes V side m₀ v m s :=
  h.comes_of_ends hV hm₀ hlive hover fun hgo h₁ =>
    h₁.comes_of_ended hV hm₀ hlive (hover.later hgo)

theorem Resting.comes_of_settled
    (h : Resting V side m₀ v N ws a K [] [.settled j true o] m s) (hover : BranchesOver side m₀ m) :
    Comes V side m₀ v m s := by
  have hturns := h.turns
  cases hturns with
  | telling ha =>
    subst ha
    have hwaits := h.waits
    cases hwaits with
    | side _ hJ =>
      exact h.comes_of_telling hV hm₀ hlive hJ hover fun hgo h₁ =>
        h₁.comes hV hm₀ hlive (hover.later hgo)

theorem Resting.comes (h : Resting V side m₀ v N ws a K extra ts m s)
    (hover : BranchesOver side m₀ m) : Comes V side m₀ v m s := by
  have hturns := h.turns
  cases hturns with
  | queued =>
    exact h.comes_of_runs hV hm₀ hlive hover fun hgo h₁ => h₁.comes hV hm₀ hlive (hover.later hgo)
  | telling => exact h.comes_of_settled hV hm₀ hlive hover
  | told hJ =>
    exact h.comes_of_told hV hm₀ hlive hJ hover fun hgo h₁ =>
      h₁.comes hV hm₀ hlive (hover.later hgo)
  | racing =>
    cases h.drain hm₀ hlive hover with
    | own hts hgo hfocus hready hafter h₁ =>
      cases hts
      obtain ⟨m₂, s₂, ws', b, L, hgo', hs, hrests⟩ := h₁.race hV hfocus hready hafter
      have hgoes := hgo.trans hgo'.to_reflTransGen
      have hover₂ := hover.later hgoes
      refine Comes.of_reaches ?_ hgoes
      rcases hrests with ⟨p, h₂⟩ | ⟨j, o, h₂⟩
      · refine comes_of_lone hs h₂.abreast ?_
        rintro rfl
        exact h₂.comes hV hm₀ hlive hover₂
      · refine comes_of_lone hs h₂.abreast ?_
        rintro rfl
        exact h₂.comes_of_settled hV hm₀ hlive hover₂
    | returns hextra => cases hextra

theorem Abreast.comes (h : Abreast V side m₀ v m s) (hover : BranchesOver side m₀ m) :
    Comes V side m₀ v m s := by
  obtain ⟨N, ws, a, K, ⟨p, h⟩ | ⟨extra, ts, h⟩⟩ := h
  · exact h.comes hV hm₀ hlive hover
  · exact h.comes hV hm₀ hlive hover

/-- If the lone process comes to where it is stuck, the machine comes there as well, when no branch
goes on any more. -/
theorem Abreast.arrives_of_lone {t : Lone} (h : Abreast V side m₀ v m s)
    (hover : BranchesOver side m₀ m) (hs : ReflTransGen Lone.Goes s t)
    (hstuck : ∀ u, ¬ Lone.Goes t u) : Arrives V side m₀ v m s := by
  induction (Lone.acc_of_stuck hs hstuck).transGen generalizing m with
  | intro s _ ih =>
    cases h.comes hV hm₀ hlive hover with
    | closes hgo h₁ hfocus hended => exact .closes hgo .refl h₁ hfocus hended
    | forks hgo hm hfork => exact .forks hgo .refl hm hfork
    | moves hgo hs₁ h₁ =>
      have hlater := Lone.reaches_of_stuck hs₁.to_reflTransGen hs hstuck
      exact (ih _ (transGen_swap.mpr hs₁) h₁ (hover.later hgo) hlater).of_reaches hgo
        hs₁.to_reflTransGen

end Over

end Machine

end UpdateDispatch
