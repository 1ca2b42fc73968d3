import UpdateDispatch.Proofs.Dispatch.Forest

/-!
# Processes that run alone

A process that starts no others and waits for none comes to its outcome by the rules of
`Process.Evaluates`, one for each of its steps. These follow the ways in which processes are put
together: what is run after a process starts where that one ended. A machine whose only root
evaluates to an outcome ends with it (`Process.Evaluates.endsWith`), as nobody takes a turn while
the root is suspended.
-/

namespace UpdateDispatch

open Relation

namespace Process

/-- With the given guards and state, the process comes to its outcome without any others. -/
inductive Evaluates : List Bool → World → Process → List Bool → World → Outcome → Prop
  | value {g : List Bool} {w : World} (v : Json) : Evaluates g w (.value v) g w (.ok v)
  | raised {g : List Bool} {w : World} (f : Fault) : Evaluates g w (.raised f) g w (.error f)
  | deferred {g g' : List Bool} {w w' : World} {p : Process} {o : Outcome}
      (h : Evaluates g w p g' w' o) : Evaluates g w (.deferred p) g' w' o
  | read {g g' : List Bool} {w w' : World} {k : World → Process} {o : Outcome}
      (h : Evaluates g w (k w) g' w' o) : Evaluates g w (.read k) g' w' o
  | write {g g' : List Bool} {w w' : World} {f : World → World} {p : Process} {o : Outcome}
      (h : Evaluates g (f w) p g' w' o) : Evaluates g w (.write f p) g' w' o
  | newGuard {g g' : List Bool} {w w' : World} {k : Nat → Process} {o : Outcome}
      (h : Evaluates (g ++ [false]) w (k g.length) g' w' o) : Evaluates g w (.newGuard k) g' w' o
  | checkGuard {g g' : List Bool} {w w' : World} {guard : Nat} {k : Bool → Process} {o : Outcome}
      (h : Evaluates g w (k (g[guard]?.getD false)) g' w' o) :
      Evaluates g w (.checkGuard guard k) g' w' o
  | useGuard {g g' : List Bool} {w w' : World} {guard : Nat} {p : Process} {o : Outcome}
      (h : Evaluates (g.set guard true) w p g' w' o) : Evaluates g w (.useGuard guard p) g' w' o
  | pause {g g' : List Bool} {w w' : World} {p : Process} {o : Outcome}
      (h : Evaluates g w p g' w' o) : Evaluates g w (.pause p) g' w' o
  | enter {g g' : List Bool} {w w' : World} {l : Link} {x : Nat} {next : Process}
      {k : Outcome → Process} {o : Outcome}
      (h : Evaluates g w ((l.call x next).andThen k) g' w' o) :
      Evaluates g w (.enter l x next k) g' w' o

variable {g g₁ g₂ : List Bool} {w w₁ w₂ : World} {p q : Process} {o o₁ : Outcome} {v : Json}
  {f : Fault}

theorem evaluates_ended (g : List Bool) (w : World) (o : Outcome) :
    Evaluates g w (ended o) g w o := by
  cases o with
  | ok v => exact .value v
  | error f => exact .raised f

/-! ## Processes put together -/

namespace Evaluates

theorem andThen {k : Outcome → Process} (h : Evaluates g w p g₁ w₁ o)
    (hk : Evaluates g₁ w₁ (k o) g₂ w₂ o₁) : Evaluates g w (p.andThen k) g₂ w₂ o₁ := by
  induction h with
  | value v | raised f => exact hk
  | deferred _ ih => exact ih hk
  | read _ ih => exact .read (ih hk)
  | write _ ih => exact .write (ih hk)
  | newGuard _ ih => exact .newGuard (ih hk)
  | checkGuard _ ih => exact .checkGuard (ih hk)
  | useGuard _ ih => exact .useGuard (ih hk)
  | pause _ ih => exact .pause (ih hk)
  | enter _ ih => exact .enter (andThen_andThen _ _ _ ▸ ih hk)

theorem followedBy (h : Evaluates g w p g₁ w₁ (.ok v)) (hq : Evaluates g₁ w₁ q g₂ w₂ o) :
    Evaluates g w (p.followedBy q) g₂ w₂ o := h.andThen hq

theorem followedBy_of_error (h : Evaluates g w p g₁ w₁ (.error f)) (q : Process) :
    Evaluates g w (p.followedBy q) g₁ w₁ (.error f) := h.andThen (.raised f)

/-- Whether the result of a call is awaited or not, it is the same. -/
theorem awaited (h : Evaluates g w p g₁ w₁ o) : Evaluates g w p.awaited g₁ w₁ o := by
  induction h with
  | value v => exact .deferred (.value v)
  | raised f => exact .raised f
  | deferred h => exact .deferred h
  | read _ ih => exact .read ih
  | write _ ih => exact .write ih
  | newGuard _ ih => exact .newGuard ih
  | checkGuard _ ih => exact .checkGuard ih
  | useGuard _ ih => exact .useGuard ih
  | pause _ ih => exact .pause ih
  | enter _ ih => exact .enter (andThen_onCall _ _ _ ▸ ih)

theorem pauses (h : Evaluates g w p g₁ w₁ o) (n : Nat) :
    Evaluates g w (pauses n p) g₁ w₁ o := by
  induction n with
  | zero => exact h
  | succ n ih => exact .pause ih

end Evaluates

/-! ## Machines -/

open Machine

/-- The machine whose only root has its turn, with some guards. -/
def solitary (g : List Bool) (w : World) (p : Process) : Machine := { running w p with guards := g }

theorem Evaluates.reaches (h : Evaluates g w p g₁ w₁ o) :
    ReflTransGen Goes (solitary g w p) (solitary g₁ w₁ (ended o)) := by
  induction h with
  | value v | raised f => exact .refl
  | pause _ ih => exact .head rfl (.head rfl ih)
  | deferred _ ih | read _ ih | write _ ih | newGuard _ ih | checkGuard _ ih | useGuard _ ih
  | enter _ ih => exact .head rfl ih

theorem endsWith_ended (g : List Bool) (w : World) (o : Outcome) :
    EndsWith (solitary g w (ended o)) w (Outcome.fault? o) := by
  refine ⟨1, o, ?_⟩
  cases o <;> exact ⟨rfl, rfl, rfl, rfl⟩

/-- A root that evaluates to an outcome ends with it. -/
theorem Evaluates.endsWith (h : Evaluates [] w p g₁ w₁ o) :
    EndsWith (ofRoots w [p]) w₁ (Outcome.fault? o) :=
  .of_reaches (.head (goes_running w p) h.reaches) (endsWith_ended g₁ w₁ o)

end Process

end UpdateDispatch
