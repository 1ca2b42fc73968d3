import UpdateDispatch.Proofs.Dispatch.Endings

/-!
# Joining functions in any order

Links that are joined from the same functions come to the same end, however the joints are nested,
and a function that passes makes no difference before another one. Each joint has a guard of its
own, and a plain function runs in the call of the one before it or when the result of that call is
awaited, as the joints have it. But all of these links stand for the same list of functions
(`Unrolls`), and each of them runs like the sequence of the list (`Machine.endsWith_sequence`).

There are no composers in such links, so the functions may register whatever they like.
-/

namespace UpdateDispatch

/-- Every call of the continuation is awaited where it is made, or returned. -/
def Script.Awaits (s : Script) : Prop := .nextDropped ∉ s.body

/-- No chain of any composer is known. -/
def unknown (_ : Nat) : Option Link := none

theorem agrees_unknown (w : World) : w.Agrees unknown := nofun

theorem tidy_of_awaits {fs : List Fn} (h : ∀ s, .script s ∈ fs → s.Awaits) : Tidy unknown fs := by
  induction fs with
  | nil => trivial
  | cons f rest ih =>
    have hrest : Tidy unknown rest := ih fun s hs => h s (List.mem_cons_of_mem _ hs)
    cases f with
    | pass => exact hrest
    | script s =>
      refine ⟨fun a ha => ⟨?_, fun _ _ _ => rfl⟩, hrest⟩
      rintro rfl
      exact absurd ha (h s List.mem_cons_self)

/-- A function that passes makes no difference before another one. -/
theorem sequence_pass (x : Nat) (fs : List Fn) (f : Fn) (rest : List Fn) :
    Process.sequence x (fs ++ .pass :: f :: rest) = Process.sequence x (fs ++ f :: rest) := by
  induction fs with
  | nil => rfl
  | cons g fs ih =>
    have hne : ∀ gs, fs ++ gs = [] → gs = [] := fun gs h => (List.append_eq_nil_iff.mp h).2
    cases g with
    | pass => exact ih
    | script s =>
      simp only [List.cons_append, Process.sequence_script]
      congr
      funext guard
      rw [Process.continuation_of_ne_nil x guard (mt (hne _) (List.cons_ne_nil _ _)),
        Process.continuation_of_ne_nil x guard (mt (hne _) (List.cons_ne_nil _ _)), ih]

namespace Machine

/-- The run of a link for a context comes to its end, in the state `w'` and with the fault `f`, if
there is one. -/
def RunEnds (w : World) (x : Nat) (w' : World) (f : Option Fault) (l : Link) : Prop :=
  EndsWith (ofRoots w [l.run x]) w' f

/-- All links that stand for functions with the same sequence come to one end. -/
theorem exists_runEnds (w : World) (x : Nat) (fs : List Fn) :
    ∃ w' f, ∀ l fs', Unrolls unknown [l] fs' → (∀ s, .script s ∈ fs' → s.Awaits) →
      Process.sequence x fs' = Process.sequence x fs → RunEnds w x w' f l := by
  obtain ⟨n, hn⟩ := Process.bounded_sequence x fs
  obtain ⟨w', f, hend⟩ := endsWith_of_bounded hn.ignored w
  refine ⟨w', f, fun l fs' hl hfs' heq => ?_⟩
  rw [← heq] at hend
  exact (endsWith_sequence hl (agrees_unknown w) (tidy_of_awaits hfs') x).mpr hend

/-- Joining functions is associative, and passing is neutral wherever another function follows: the
runs come to the same end, with the same trace, the same contexts and the same fault, if any. -/
theorem concat_assoc_and_pass (w : World) (x : Nat) {a b c d : Script} (ha : a.Awaits)
    (hb : b.Awaits) (hc : c.Awaits) (hd : d.Awaits) :
    (∃ w' f,
      RunEnds w x w' f
        (.concat (.concat (.concat (.script a) (.script b)) (.script c)) (.script d)) ∧
      RunEnds w x w' f
        (.concat (.concat (.script a) (.concat (.script b) (.script c))) (.script d))) ∧
    ∃ w' f,
      RunEnds w x w' f (.concat (.script a) (.script d)) ∧
      RunEnds w x w' f (.concat (.concat .pass (.script a)) (.script d)) ∧
      RunEnds w x w' f (.concat (.concat (.script a) .pass) (.script d)) := by
  constructor
  · obtain ⟨w', f, h⟩ := exists_runEnds w x [.script a, .script b, .script c, .script d]
    have hawaits : ∀ s, .script s ∈ [Fn.script a, .script b, .script c, .script d] → s.Awaits := by
      simp [ha, hb, hc, hd]
    have hfns : Unrolls unknown [.script a, .script b, .script c, .script d]
        [.script a, .script b, .script c, .script d] := .script (.script (.script (.script .nil)))
    exact ⟨w', f, h _ _ (.concat (.concat (.concat hfns))) hawaits rfl,
      h _ _ (.concat (.concat (.script (.concat (.script (.script (.script .nil))))))) hawaits rfl⟩
  · obtain ⟨w', f, h⟩ := exists_runEnds w x [.script a, .script d]
    have hawaits : ∀ s, .script s ∈ [Fn.script a, .script d] → s.Awaits := by simp [ha, hd]
    refine ⟨w', f, h _ _ (.concat (.script (.script .nil))) hawaits rfl, ?_, ?_⟩
    · refine h _ _ (.concat (.concat (.pass (.script (.script .nil))))) ?_
        (sequence_pass x [] (.script a) [.script d])
      simpa using hawaits
    · refine h _ _ (.concat (.concat (.script (.pass (.script .nil))))) ?_
        (sequence_pass x [.script a] (.script d) [])
      simpa using hawaits

/-- A function that catches what the rest of its chain raises. -/
def catching : Script := { actions := [.note (.str "a"), .nextCaught], plain := false }

/-- A plain function that returns the call of its continuation. -/
def passingOn : Script := { actions := [.note (.str "b"), .next], plain := true }

/-- A function that calls its continuation again when it has come back. -/
def repeating : Script := { actions := [.next, .note (.str "c"), .next], plain := false }

/-- A function that suspends and notes a value. -/
def lasting : Script := { actions := [.pause 1, .note (.str "d")], plain := false }

/-- A state with one context. -/
def loneWorld : World := { client := none, me := default, contexts := [default] }

/-- The last function runs once, the second call of it is refused, and the first function catches
what that raises, however the functions are joined. -/
theorem concat_assoc_and_pass_repeating : ∃ w',
    RunEnds loneWorld 0 w' none (.concat (.concat (.concat (.script catching) (.script passingOn))
      (.script repeating)) (.script lasting)) ∧
    RunEnds loneWorld 0 w' none (.concat (.concat (.script catching)
      (.concat (.script passingOn) (.script repeating))) (.script lasting)) ∧
    w'.events = [.note (.str "a"), .note (.str "b"), .note (.str "d"), .note (.str "c"),
      .caught .nextCalledTwice] ∧
    ∃ w'' f, RunEnds loneWorld 0 w'' f (.concat (.script catching) (.script lasting)) ∧
      RunEnds loneWorld 0 w'' f (.concat (.concat .pass (.script catching)) (.script lasting)) ∧
      RunEnds loneWorld 0 w'' f (.concat (.concat (.script catching) .pass) (.script lasting)) := by
  have hawaits : catching.Awaits ∧ passingOn.Awaits ∧ repeating.Awaits ∧ lasting.Awaits := by
    simp [Script.Awaits, Script.body, Action.untilSuspended, Action.suspends, catching, passingOn,
      repeating, lasting]
  obtain ⟨ha, hb, hc, hd⟩ := hawaits
  obtain ⟨⟨w', f, hleft, hright⟩, hpass⟩ := concat_assoc_and_pass loneWorld 0 ha hb hc hd
  have hend : RunEnds loneWorld 0 _ none (.concat (.concat (.concat (.script catching)
      (.script passingOn)) (.script repeating)) (.script lasting)) :=
    ⟨60, .ok .null, rfl, rfl, rfl, rfl⟩
  obtain ⟨rfl, rfl⟩ := hend.unique hleft
  exact ⟨_, hleft, hright, rfl, hpass⟩

end Machine

end UpdateDispatch
