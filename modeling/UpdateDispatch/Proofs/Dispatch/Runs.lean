import UpdateDispatch.Dispatch.Machine
import Mathlib

/-!
# Runs in any order of turns

`Next` is one step of the machine under any scheduler: the running process goes on, and if none
runs, any turn of the queue may be taken. The steps of `Machine.step` are among them. What a
process sees of the others are the turns that are taken while it is suspended.

No step takes back the use of a guard (`Next.kept`), so a run does not either
(`Kept.of_reaches`).
-/

namespace UpdateDispatch

open Relation

namespace Machine

/-! ## Steps -/

/-- The machine after a turn. -/
def take : Turn → Machine → Machine
  | .resume owner p, m => m.focusOn owner p
  | .settled join left o, m => m.settle join left o

/-- One step, where the turns of the queue are taken in any order. -/
inductive Next : Machine → Machine → Prop
  | advance {m : Machine} {owner : Owner} {p : Process} (hfocus : m.focus = some (owner, p)) :
      Next m (m.advance owner p)
  | turn {m : Machine} {before after : List Turn} {t : Turn} (hfocus : m.focus = none)
      (hready : m.ready = before ++ t :: after) :
      Next m (take t { m with ready := before ++ after })

variable {m m' : Machine} {owner : Owner} {p : Process}

theorem step_of_focus (h : m.focus = some (owner, p)) : m.step = some (m.advance owner p) := by
  rw [step, h]

theorem Next.eq_advance (hnext : Next m m') (h : m.focus = some (owner, p)) :
    m' = m.advance owner p := by
  cases hnext with
  | advance hfocus =>
    rw [h] at hfocus
    cases hfocus
    rfl
  | turn hfocus =>
    rw [h] at hfocus
    cases hfocus

theorem Next.eq_of_step (hnext : Next m m') (h : m.focus = some (owner, p)) {next : Machine}
    (hstep : m.step = some next) : m' = next := by
  rw [step_of_focus h] at hstep
  cases hstep
  exact hnext.eq_advance h

/-- A step of the machine takes the first turn. -/
theorem next_of_step (h : m.step = some m') : Next m m' := by
  unfold step at h
  split at h
  · next hfocus =>
    cases h
    exact .advance hfocus
  · next hfocus =>
    split at h
    · cases h
    · next hready =>
      cases h
      exact .turn hfocus (hready.trans (List.nil_append _).symm)
    · next hready =>
      cases h
      exact .turn hfocus (hready.trans (List.nil_append _).symm)

theorem reaches_run (n : Nat) (m : Machine) : ReflTransGen Next m (run n m) := by
  induction n generalizing m with
  | zero => exact .refl
  | succ n ih =>
    unfold run
    split
    · next m' hstep => exact .head (next_of_step hstep) (ih m')
    · exact .refl

/-! ## Guards -/

/-- Guards later in a run: none is missing, and none that was used is unused again. -/
structure Kept (guards later : List Bool) : Prop where
  length_le : guards.length ≤ later.length
  used : ∀ guard : Nat, guards[guard]? = some true → later[guard]? = some true

theorem Kept.of_eq {guards later : List Bool} (h : later = guards) : Kept guards later := by
  subst h
  exact ⟨Nat.le_refl _, fun _ h => h⟩

theorem Kept.trans {guards later last : List Bool} (h : Kept guards later)
    (h' : Kept later last) : Kept guards last :=
  ⟨Nat.le_trans h.length_le h'.length_le, fun guard hused => h'.used guard (h.used guard hused)⟩

theorem kept_append (guards more : List Bool) : Kept guards (guards ++ more) := by
  refine ⟨by simp, fun guard hused => ?_⟩
  obtain ⟨hlt, -⟩ := List.getElem?_eq_some_iff.mp hused
  rw [List.getElem?_append_left hlt, hused]

theorem kept_set (guards : List Bool) (guard : Nat) : Kept guards (guards.set guard true) := by
  refine ⟨by simp, fun other hused => ?_⟩
  rw [List.getElem?_set]
  obtain ⟨hlt, -⟩ := List.getElem?_eq_some_iff.mp hused
  split
  · next h => rw [if_pos (h ▸ hlt)]
  · exact hused

theorem finish_guards (owner : Owner) (o : Outcome) (m : Machine) :
    (m.finish owner o).guards = m.guards := by
  cases owner <;> rfl

theorem settle_guards (join : Nat) (left : Bool) (o : Outcome) (m : Machine) :
    (m.settle join left o).guards = m.guards := by
  unfold settle
  split
  · rfl
  · split <;> rfl

theorem kept_advance (owner : Owner) (p : Process) (m : Machine) :
    Kept m.guards (m.advance owner p).guards := by
  cases p with
  | newGuard k => exact kept_append m.guards [false]
  | useGuard guard p => exact kept_set m.guards guard
  | value v => exact .of_eq (finish_guards owner _ m)
  | raised f => exact .of_eq (finish_guards owner _ m)
  | await task k =>
    unfold advance
    dsimp only
    split
    · exact .of_eq rfl
    · exact .of_eq rfl
    · exact .of_eq (finish_guards owner _ m)
  | _ => exact .of_eq rfl

theorem Next.kept (h : Next m m') : Kept m.guards m'.guards := by
  cases h with
  | advance => exact kept_advance _ _ m
  | @turn before after t =>
    cases t with
    | resume owner p => exact .of_eq rfl
    | settled join left o => exact .of_eq (settle_guards join left o _)

theorem Kept.of_reaches (h : ReflTransGen Next m m') : Kept m.guards m'.guards := by
  induction h with
  | refl => exact .of_eq rfl
  | tail _ hnext ih => exact ih.trans hnext.kept

theorem used_eq_true_iff {guard : Nat} : m.used guard = true ↔ m.guards[guard]? = some true := by
  unfold used
  rcases m.guards[guard]? with _ | b <;> simp

/-- A guard that was used is used from then on. -/
theorem used_of_reaches {guard : Nat} (h : ReflTransGen Next m m') (hused : m.used guard = true) :
    m'.used guard = true := by
  rw [used_eq_true_iff] at hused ⊢
  exact (Kept.of_reaches h).used guard hused

end Machine
end UpdateDispatch
