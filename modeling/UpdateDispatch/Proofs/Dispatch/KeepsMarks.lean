import UpdateDispatch.Proofs.Dispatch.Registrations

/-!
# Registration keeps marks

Registrations change composers and registers. `Build.KeepsMarks` says of a computation on the state
that it leaves the marks of boundaries alone, and all registrations do (`Build.keepsMarks_step`).
-/

namespace UpdateDispatch

namespace Build

variable {α β : Type}

/-- A computation that leaves all marks as they are. -/
def KeepsMarks (b : Build α) : Prop := ∀ w, (b.outcome w).2.marks = w.marks

theorem keepsMarks_pure (a : α) : KeepsMarks (pure a) := fun _ => rfl

theorem KeepsMarks.bind {b : Build α} {k : α → Build β} (h : KeepsMarks b)
    (hk : ∀ a, KeepsMarks (k a)) : KeepsMarks (b >>= k) :=
  related_bind (Q := fun w w' => w'.marks = w.marks) (fun h h' => h'.trans h) h hk

/-- The relation of a state to itself, while its marks are `marks`. -/
def Marked (marks : List Bool) (w w' : World) : Prop := w' = w ∧ w.marks = marks

theorem basis_marked (marks : List Bool) : Basis (Marked marks) where
  composers h := by rw [h.1]
  registers h := by rw [h.1]
  me h := by rw [h.1]
  accessed h name := ⟨by rw [h.1], h.2⟩
  setComposers h composers := ⟨by rw [h.1], h.2⟩
  setRegisters h registers := ⟨by rw [h.1], h.2⟩

theorem keepsMarks_of_respects {b : Build α} (h : ∀ marks, Respects (Marked marks) b) :
    KeepsMarks b := fun w => (h w.marks w w ⟨rfl, rfl⟩).2.2

theorem keepsMarks_compose (mw : List Middleware) : KeepsMarks (compose mw) :=
  keepsMarks_of_respects fun marks => respects_compose (basis_marked marks).toSources mw

theorem keepsMarks_spec (s : Spec) : KeepsMarks s.build :=
  keepsMarks_of_respects fun marks => respects_spec (basis_marked marks).toSources s

/-- No registration touches a mark. -/
theorem keepsMarks_step (s : Step) : KeepsMarks (step s) :=
  keepsMarks_of_respects fun marks => respects_step (basis_marked marks) s

end Build

end UpdateDispatch
