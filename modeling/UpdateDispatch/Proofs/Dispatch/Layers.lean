import UpdateDispatch.Proofs.Dispatch.Evaluation
import UpdateDispatch.Proofs.Dispatch.Observation

/-!
# Middleware in layers

A `Layer` is a function that notes when it is entered, and then waits for its continuation and notes
that it is left, or is left at once, or raises. Layers that are registered one after the other lie
around each other, however they are grouped: they are entered in order, up to the first one that
does not go on, and those that were entered are left in the opposite order unless it raises
(`layers_unwind`).

The induction is on the links of a chain (`Process.leaves_call`). What follows a link is a stack of
links, each behind its guard, above the end of the chain (`Process.pendingOn`), and a call of it
notes what the layers that are left note (`Layer.Course`).
-/

namespace UpdateDispatch

open Process

/-! ## Layers -/

/-- What a layer does once it is entered. -/
inductive Conduct where
  | proceeds
  | stops
  | raises (t : Throw)

/-- A function that notes a value when it is entered and another one when it is left. It may suspend
after it is entered, and again after the rest of the chain. -/
structure Layer where
  enter : Json
  exit : Json
  delay : Nat := 0
  lull : Nat := 0
  conduct : Conduct

/-- The script of a layer. -/
def Layer.script (l : Layer) : Script where
  actions := .note l.enter :: .pause l.delay ::
    match l.conduct with
    | .proceeds => [.next, .pause l.lull, .note l.exit]
    | .stops => [.note l.exit]
    | .raises t => [.throw t]
  plain := false

/-- The script of a function, if it does not pass. -/
def Fn.script? : Fn → Option Script
  | .pass => none
  | .script s => some s

/-- What layers note in a run for the context `x`, and the fault of the run, if there is one. -/
inductive Layer.Unwinds (x : Nat) : List Layer → List Json → Option Fault → Prop
  | passed {ls : List Layer} (h : ∀ l ∈ ls, l.conduct = .proceeds) :
      Unwinds x ls (ls.map enter ++ (ls.map exit).reverse) none
  | stopped {before after : List Layer} {l : Layer} (h : ∀ l ∈ before, l.conduct = .proceeds)
      (hl : l.conduct = .stops) :
      Unwinds x (before ++ l :: after)
        ((before ++ [l]).map enter ++ ((before ++ [l]).map exit).reverse) none
  | raised {before after : List Layer} {l : Layer} {t : Throw}
      (h : ∀ l ∈ before, l.conduct = .proceeds) (hl : l.conduct = .raises t) :
      Unwinds x (before ++ l :: after) ((before ++ [l]).map enter) (some (t.fault (some x)))

/-- The state after some values were noted. -/
def World.noting (vs : List Json) (w : World) : World :=
  { w with events := w.events ++ vs.map .note }

theorem World.noting_nil (w : World) : w.noting [] = w := by
  rw [noting, List.map_nil, List.append_nil]

theorem World.noting_noting (vs vs' : List Json) (w : World) :
    (w.noting vs).noting vs' = w.noting (vs ++ vs') := by
  simp only [noting, List.append_assoc, List.map_append]

/-- What layers note around the values `vs` that the end of the chain notes, one layer at a time. -/
inductive Layer.Course (x : Nat) (vs : List Json) : List Layer → List Json → Option Fault → Prop
  | nil : Course x vs [] vs none
  | passes {l : Layer} {rest : List Layer} {trace : List Json} (hl : l.conduct = .proceeds)
      (h : Course x vs rest trace none) :
      Course x vs (l :: rest) (l.enter :: (trace ++ [l.exit])) none
  | fails {l : Layer} {rest : List Layer} {trace : List Json} {f : Fault}
      (hl : l.conduct = .proceeds) (h : Course x vs rest trace (some f)) :
      Course x vs (l :: rest) (l.enter :: trace) (some f)
  | stops {l : Layer} {rest : List Layer} (hl : l.conduct = .stops) :
      Course x vs (l :: rest) [l.enter, l.exit] none
  | raises {l : Layer} {rest : List Layer} {t : Throw} (hl : l.conduct = .raises t) :
      Course x vs (l :: rest) [l.enter] (some (t.fault (some x)))

namespace Layer

variable {x : Nat} {vs trace : List Json} {before rest : List Layer} {f : Option Fault}

/-- Layers that go on lie around what comes after them. -/
theorem Course.around (h : Course x vs rest trace none)
    (hbefore : ∀ l ∈ before, l.conduct = .proceeds) :
    Course x vs (before ++ rest) (before.map enter ++ trace ++ (before.map exit).reverse) none := by
  induction before with
  | nil => simpa using h
  | cons l before ih =>
    obtain ⟨hl, hbefore⟩ := List.forall_mem_cons.mp hbefore
    simpa using Course.passes hl (ih hbefore)

theorem Course.after {f : Fault} (h : Course x vs rest trace (some f))
    (hbefore : ∀ l ∈ before, l.conduct = .proceeds) :
    Course x vs (before ++ rest) (before.map enter ++ trace) (some f) := by
  induction before with
  | nil => exact h
  | cons l before ih =>
    obtain ⟨hl, hbefore⟩ := List.forall_mem_cons.mp hbefore
    exact .fails hl (ih hbefore)

theorem Unwinds.course {ls : List Layer} (h : Unwinds x ls trace f) : Course x [] ls trace f := by
  cases h with
  | passed h =>
    have hnil : Course x [] [] [] none := .nil
    simpa using hnil.around h
  | @stopped _ after _ h hl =>
    have hstops : Course x [] (_ :: after) _ none := .stops hl
    simpa using hstops.around h
  | @raised _ after _ _ h hl =>
    have hraises : Course x [] (_ :: after) _ _ := .raises hl
    simpa using hraises.after h

/-- All layers go on, or there is a first one that does not. -/
theorem exists_unwinds (x : Nat) (ls : List Layer) : ∃ trace f, Unwinds x ls trace f := by
  induction ls with
  | nil => exact ⟨_, _, .passed nofun⟩
  | cons l rest ih =>
    rcases hl : l.conduct with _ | _ | t
    · obtain ⟨trace, f, h⟩ := ih
      cases h with
      | passed h => exact ⟨_, _, .passed (List.forall_mem_cons.mpr ⟨hl, h⟩)⟩
      | @stopped before _ _ h hstops =>
        have hbefore : ∀ l' ∈ l :: before, l'.conduct = .proceeds :=
          List.forall_mem_cons.mpr ⟨hl, h⟩
        exact ⟨_, _, .stopped hbefore hstops⟩
      | @raised before _ _ _ h hraises =>
        have hbefore : ∀ l' ∈ l :: before, l'.conduct = .proceeds :=
          List.forall_mem_cons.mpr ⟨hl, h⟩
        exact ⟨_, _, .raised hbefore hraises⟩
    · exact ⟨_, _, .stopped (List.forall_mem_nil _) hl⟩
    · exact ⟨_, _, .raised (List.forall_mem_nil _) hl⟩

end Layer

/-! ## Chains of layers -/

namespace Process

/-- In the given state the process comes to an end alone, and it notes some values until then. -/
def Leaves (g : List Bool) (w : World) (p : Process) (vs : List Json) (f : Option Fault) : Prop :=
  ∃ g' o, Evaluates g w p g' (w.noting vs) o ∧ Outcome.fault? o = f

/-- The end of a chain, which notes some values. -/
def Closes (next : Process) (vs : List Json) : Prop := ∀ g w, Leaves g w next vs none

/-- The rest of a chain above its end: the links to be called, each behind its guard. -/
def pendingOn (x : Nat) (next : Process) : List (Nat × Link) → Process
  | [] => next
  | (guard, l) :: rest => once guard (l.call x (pendingOn x next rest))

variable {x guard : Nat} {g : List Bool} {w : World} {p q next : Process} {vs trace : List Json}
  {f : Option Fault} {l : Layer} {chain : Nat → Option Link} {stack : List (Nat × Link)}
  {fs : List Fn} {ls : List Layer}

theorem leaves_raised (f : Fault) : Leaves g w (raised f) [] (some f) :=
  ⟨g, .error f, w.noting_nil.symm ▸ .raised f, rfl⟩

theorem leaves_done : Leaves g w done [] none :=
  ⟨g, .ok .null, w.noting_nil.symm ▸ .value .null, rfl⟩

theorem Leaves.deferred (h : Leaves g w p vs f) : Leaves g w (deferred p) vs f :=
  let ⟨g', o, hp, ho⟩ := h
  ⟨g', o, .deferred hp, ho⟩

/-- What follows a process that ends well comes after it. -/
theorem Leaves.followedBy (h : Leaves g w p vs none)
    (hq : ∀ g, Leaves g (w.noting vs) q trace f) : Leaves g w (p.followedBy q) (vs ++ trace) f := by
  obtain ⟨g₁, o, hp, ho⟩ := h
  obtain ⟨g₂, o₂, hq, ho₂⟩ := hq g₁
  cases o with
  | ok v => exact ⟨g₂, o₂, World.noting_noting vs trace w ▸ hp.followedBy hq, ho₂⟩
  | error f => cases ho

/-- What follows a process that fails is left out. -/
theorem Leaves.followedBy_of_some {f : Fault} (h : Leaves g w p vs (some f)) (q : Process) :
    Leaves g w (p.followedBy q) vs (some f) := by
  obtain ⟨g₁, o, hp, ho⟩ := h
  cases o with
  | ok v => cases ho
  | error f' =>
    obtain rfl := Option.some.inj ho
    exact ⟨g₁, .error f', hp.followedBy_of_error q, rfl⟩

theorem Leaves.ignored (h : Leaves g w p vs f) : Leaves g w p.ignored vs f := by
  cases f with
  | none => exact vs.append_nil ▸ h.followedBy fun g => leaves_done
  | some f => exact h.followedBy_of_some done

/-- A continuation that was not called before is called. -/
theorem leaves_once (hguard : g[guard]? = some false)
    (h : Leaves (g.set guard true) w p vs f) : Leaves g w (once guard p) vs f := by
  obtain ⟨g', o, hp, ho⟩ := h
  refine ⟨g', o, .checkGuard ?_, ho⟩
  rw [hguard]
  exact .useGuard hp.awaited

/-- A composer runs its chain. -/
theorem Leaves.dispatch {id : Nat} {l : Link} (h : Leaves g w (l.call x next) vs f)
    (hl : w.chain id = l) : Leaves g w (dispatch id x next) vs f := by
  obtain ⟨g', o, hcall, ho⟩ := h
  subst hl
  have hended : Leaves g' (w.noting vs) (ended o).ignored [] f :=
    Leaves.ignored ⟨g', o, (World.noting_nil _).symm ▸ evaluates_ended g' _ o, ho⟩
  obtain ⟨g'', o', hlast, ho'⟩ := hended
  rw [World.noting_nil] at hlast
  exact ⟨g'', o', .deferred (.read (.enter (hcall.andThen hlast))), ho'⟩

theorem closes_leaf : Closes leaf [] := fun _ _ => leaves_done.deferred

theorem closes_noting (v : Json) : Closes (deferred (record (.note v))) [v] := fun g _ =>
  ⟨g, .ok .null, .deferred (.write (.value .null)), rfl⟩

/-! ### One layer -/

theorem evaluates_note (e : Frame) (v : Json) :
    Evaluates g w ((Action.note v).call e) g (w.noting [v]) (.ok .null) := .write (.value .null)

theorem evaluates_pause (e : Frame) (n : Nat) :
    Evaluates g w ((Action.pause n).call e) g w (.ok .null) := .deferred (.pauses (.value .null) n)

/-- Nothing else has happened when a layer has been entered. -/
theorem leaves_entering (l : Layer) {rest : List Action} {e : Frame}
    (h : Leaves g (w.noting [l.enter]) (Action.runAll e rest) trace f) :
    Leaves g w (Action.runAll e (.note l.enter :: .pause l.delay :: rest)) (l.enter :: trace)
      f := by
  obtain ⟨g', o, hrest, ho⟩ := h
  rw [World.noting_noting] at hrest
  exact ⟨g', o, (evaluates_note e l.enter).followedBy
    ((evaluates_pause e l.delay).followedBy hrest), ho⟩

theorem leaves_exiting (v : Json) (e : Frame) : Leaves g w (Action.runAll e [.note v]) [v] none :=
  ⟨g, .ok .null, (evaluates_note e v).followedBy (.value .null), rfl⟩

/-- A call of a layer that goes on lies around what its continuation does. -/
theorem leaves_passing (hl : l.conduct = .proceeds)
    (h : Leaves g (w.noting [l.enter]) p trace none) :
    Leaves g w (l.script.call (.between x p)) (l.enter :: (trace ++ [l.exit])) none := by
  unfold Layer.script Script.call
  rw [hl]
  refine Leaves.deferred (leaves_entering l (h.followedBy fun g => ?_))
  obtain ⟨g', o, hexit, ho⟩ := leaves_exiting (g := g) (w := (w.noting [l.enter]).noting trace)
    l.exit (.between x p)
  exact ⟨g', o, (evaluates_pause _ l.lull).followedBy hexit, ho⟩

/-- If the continuation fails, the layer is not left. -/
theorem leaves_failing {f : Fault} (hl : l.conduct = .proceeds)
    (h : Leaves g (w.noting [l.enter]) p trace (some f)) :
    Leaves g w (l.script.call (.between x p)) (l.enter :: trace) (some f) := by
  unfold Layer.script Script.call
  rw [hl]
  exact Leaves.deferred (leaves_entering l (h.followedBy_of_some _))

theorem leaves_stopping (hl : l.conduct = .stops) (p : Process) :
    Leaves g w (l.script.call (.between x p)) [l.enter, l.exit] none := by
  unfold Layer.script Script.call
  rw [hl]
  exact Leaves.deferred (leaves_entering l (leaves_exiting l.exit _))

theorem leaves_raising {t : Throw} (hl : l.conduct = .raises t) (p : Process) :
    Leaves g w (l.script.call (.between x p)) [l.enter] (some (t.fault (some x))) := by
  unfold Layer.script Script.call
  rw [hl]
  exact Leaves.deferred (leaves_entering l ((leaves_raised _).followedBy_of_some _))

/-! ### The layers of a chain -/

/-- A call of some links notes what the layers among their functions note. -/
def LeavesLayers (chain : Nat → Option Link) (x : Nat) (next : Process) (vs : List Json)
    (links : List Link) (fs : List Fn) : Prop :=
  ∀ {l : Link} {stack : List (Nat × Link)} {ls : List Layer} {g : List Bool} {w : World}
    {trace : List Json} {f : Option Fault}, links = l :: stack.map Prod.snd →
    fs.filterMap Fn.script? = ls.map Layer.script → Layer.Course x vs ls trace f →
    w.Agrees chain → Fresh g stack → Leaves g w (l.call x (pendingOn x next stack)) trace f

/-- A call of what is pending is a call of the first link of it, or of the end of the chain. -/
theorem leaves_pendingOn (h : LeavesLayers chain x next vs (stack.map Prod.snd) fs)
    (hunrolls : Unrolls chain (stack.map Prod.snd) fs) (hnext : Closes next vs)
    (hfs : fs.filterMap Fn.script? = ls.map Layer.script) {f : Option Fault}
    (hcourse : Layer.Course x vs ls trace f) (hw : w.Agrees chain) (hfresh : Fresh g stack) :
    Leaves g w (pendingOn x next stack) trace f := by
  cases stack with
  | nil =>
    cases hunrolls
    obtain rfl : ls = [] := List.map_eq_nil_iff.mp hfs.symm
    cases hcourse
    exact hnext g w
  | cons e stack => exact leaves_once hfresh.head (h rfl hfs hcourse hw hfresh.set)

theorem leaves_call {links : List Link} (h : Unrolls chain links fs) (hnext : Closes next vs) :
    LeavesLayers chain x next vs links fs := by
  induction h with
  | nil => exact nofun
  | pass hrest ih =>
    rintro _ stack ls g w trace f ⟨⟩ hfs hcourse hw hfresh
    exact leaves_pendingOn ih hrest hnext hfs hcourse hw hfresh
  | @script s links fs hrest ih =>
    rintro _ stack ls g w trace f ⟨⟩ hfs hcourse hw hfresh
    cases ls with
    | nil => cases hfs
    | cons l ls =>
      obtain ⟨rfl, hscripts⟩ := List.cons.inj (hfs : s :: fs.filterMap Fn.script? = _)
      have hlater : ∀ {trace f}, Layer.Course x vs ls trace f →
          Leaves g (w.noting [l.enter]) (pendingOn x next stack) trace f := fun hcourse =>
        leaves_pendingOn ih hrest hnext hscripts hcourse (hw.congr rfl) hfresh
      cases hcourse with
      | passes hl h => exact leaves_passing hl (hlater h)
      | fails hl h => exact leaves_failing hl (hlater h)
      | stops hl => exact leaves_stopping hl _
      | raises hl => exact leaves_raising hl _
  | @composer id l links fs hid _ ih =>
    rintro _ stack ls g w trace f ⟨⟩ hfs hcourse hw hfresh
    exact (ih rfl hfs hcourse hw hfresh).dispatch (hw id l hid)
  | @concat first second links fs _ ih =>
    rintro _ stack ls g w trace f ⟨⟩ hfs hcourse hw hfresh
    have hlinks : first :: second :: stack.map Prod.snd =
        first :: ((g.length, second) :: stack).map Prod.snd := rfl
    obtain ⟨g', o, hcall, ho⟩ := (ih hlinks hfs hcourse hw (hfresh.push second)).ignored
    exact ⟨g', o, .deferred (.newGuard hcall), ho⟩

end Process

/-! ## Registered layers -/

theorem bot?_grow (gs : List Growth) (w : World) (id : Nat) :
    ((grow gs).outcome w).2.bot? id = w.bot? id := by
  have hcreate : ∀ (items : List Item) w,
      ((Build.composerOf (items.map Item.middleware)).outcome w).2.bot? id = w.bot? id := by
    intro items w
    rw [outcome_composerOf]
    exact World.bot?_addComposer w id rfl
  have hbuild : ∀ (g : Growth) w, (g.build.outcome w).2.bot? id = w.bot? id := by
    intro g w
    cases g with
    | create items => exact hcreate items w
    | use other items =>
      rw [Growth.build, Build.use, Build.outcome_bind, outcome_composerOf]
      exact (World.bot?_append _ id other _).trans (World.bot?_addComposer w id rfl)
  induction gs generalizing w with
  | nil => rfl
  | cons g rest ih =>
    have hg := hbuild g w
    rw [grow, Build.outcome_bind]
    rcases hb : g.build.outcome w with ⟨f | a, w'⟩ <;> rw [hb] at hg
    · exact hg
    · exact (ih w').trans hg

namespace Process

open Machine

variable {w : World} {p : Process} {vs : List Json} {f : Option Fault}

theorem Leaves.endsWith (h : Leaves [] w p vs f) : EndsWith (ofRoots w [p]) (w.noting vs) f := by
  obtain ⟨g, o, hp, rfl⟩ := h
  exact hp.endsWith

/-- What a bot does once the chain has run for a context. -/
def afterHandled (updateId : Json) (x : Nat) : Outcome → Process
  | .ok _ => value (.int x)
  | .error f => log (.chainFailed updateId) (raised (.failure f (some x)))

/-- A bot runs its chain for a new context, and a fault of the chain becomes a failure that holds
it. -/
theorem endsWith_handleUpdate {id : Nat} {b : BotState} {me : Identity} {update u : Json}
    (hbot : w.bot? id = some b) (hme : b.identity = some me) (hthrows : b.contextThrows = none)
    (hupdate : update.get "update_id" = .ok u)
    (h : Leaves [] ((w.log (.processing u)).addContext { update, me })
      ((Link.composer id).run w.contexts.length) vs f) :
    ∃ w', EndsWith (ofRoots w [Bot.handleUpdate id update]) w'
        (f.map fun f => .failure f (some w.contexts.length)) ∧
      w'.events = w.events ++ vs.map .note := by
  -- what comes before the run of the chain is the same however the run ends
  have hupdated : ∀ {g g' v w' o o'},
      Evaluates [] ((w.log (.processing u)).addContext { update, me })
        ((Link.composer id).run w.contexts.length) g v o →
      Evaluates g v (afterHandled u w.contexts.length o) g' w' o' →
      Evaluates [] w (Bot.handleUpdate id update) g' w' o' := fun hrun hafter => by
    refine .read ?_
    simp only [hbot, hme, hupdate, hthrows]
    exact .write (.write (hrun.andThen hafter))
  obtain ⟨g, o, hrun, rfl⟩ := h
  cases o with
  | ok v => exact ⟨_, (hupdated hrun (.value _)).endsWith, rfl⟩
  | error f => exact ⟨_, (hupdated hrun (.write (.raised _))).endsWith, rfl⟩

end Process

open Machine in
/-- However layers were registered, a run enters them in order, up to the first one that does not go
on. If that one raises, the run fails with its fault, and a bot fails with what holds the fault and
the context. Otherwise all that were entered are left in the opposite order. If all of them go on,
the end of the chain is reached, and what it notes stands in the middle. -/
theorem layers_unwind {w : World} {F : Forest} (hw : Planted w F) (gs : List Growth) :
    ∃ w₁, (grow gs).outcome w = (.ok (), w₁) ∧ (∀ id, w₁.bot? id = w.bot? id) ∧
      ∀ {id fs ls}, Traversal (gs.foldl Growth.extend F) [.composer id] fs →
        fs.filterMap Fn.script? = ls.map Layer.script →
        (∀ {x trace f}, Layer.Unwinds x ls trace f →
          EndsWith (ofRoots w₁ [(Link.composer id).run x]) (w₁.noting trace) f ∧
          ∀ {b me update u}, w₁.bot? id = some b → b.identity = some me →
            b.contextThrows = none → update.get "update_id" = .ok u → w₁.contexts.length = x →
            ∃ w₂, EndsWith (ofRoots w₁ [Bot.handleUpdate id update]) w₂
                (f.map fun f => .failure f (some x)) ∧
              w₂.events = w₁.events ++ trace.map .note) ∧
        ((∀ l ∈ ls, l.conduct = .proceeds) → ∀ x v,
          EndsWith (ofRoots w₁ [((Link.composer id).call x (deferred (record (.note v)))).ignored])
            (w₁.noting (ls.map Layer.enter ++ v :: (ls.map Layer.exit).reverse)) none) := by
  obtain ⟨w₁, hgrow, hplanted⟩ := hw.grow gs
  have hbots : ∀ id, w₁.bot? id = w.bot? id := fun id => by
    rw [← bot?_grow gs w id, hgrow]
  refine ⟨w₁, hgrow, hbots, fun {id fs ls} hfs hscripts => ?_⟩
  have hunrolls : Unrolls w₁.known [.composer id] (fs ++ []) := hfs.unrolls hplanted .nil
  rw [List.append_nil] at hunrolls
  have hlink : [Link.composer id] =
      Link.composer id :: ([] : List (Nat × Link)).map Prod.snd := rfl
  have hleaves : ∀ {w x next vs trace f}, w.Agrees w₁.known → Closes next vs →
      Layer.Course x vs ls trace f →
      Leaves [] w ((Link.composer id).call x next).ignored trace f :=
    fun {w x next vs trace f} hw hnext hcourse =>
      (leaves_call (x := x) hunrolls hnext hlink hscripts hcourse hw (fresh_nil [])).ignored
  refine ⟨fun hunwinds => ⟨?_, ?_⟩, fun hall x v => ?_⟩
  · exact (hleaves w₁.agrees_known closes_leaf hunwinds.course).endsWith
  · rintro b me update u hbot hme hthrows hupdate rfl
    exact endsWith_handleUpdate hbot hme hthrows hupdate
      (hleaves (w₁.agrees_known.congr rfl) closes_leaf hunwinds.course)
  · have hnil : Layer.Course x [v] [] [v] none := .nil
    have hcourse := hnil.around hall
    rw [List.append_nil, List.append_assoc] at hcourse
    exact (hleaves w₁.agrees_known (closes_noting v) hcourse).endsWith

/-- A layer that notes a text when it is entered, and again when it is left. -/
def textLayer (text : String) (conduct : Conduct) : Layer :=
  { enter := .str text, exit := .str text, conduct }

/-- Three layers, of which the last one raises. -/
def threeLayers : List Layer :=
  [textLayer "a" .proceeds, textLayer "b" .proceeds,
    textLayer "c" (.raises { kind := .plain .runtime, value := .str "c" })]

/-- A layer as a function. -/
def Layer.fn (l : Layer) : Fn := .script l.script

/-- A dispatcher with a bot. -/
def servingWorld : World :=
  { client := none, me := default, composers := [{ bot := some { identity := some default } }] }

/-- A composer with the second layer, and the bot with it between the two others. -/
def layeredGrowth : List Growth :=
  [.create [.fn threeLayers[1].fn],
    .use 0 [.fn threeLayers[0].fn, .composer 1, .fn threeLayers[2].fn]]

theorem layers_unwind_bot :
    Planted servingWorld [[.fn .pass]] ∧
    ∃ w₁ w₂, (grow layeredGrowth).outcome servingWorld = (.ok (), w₁) ∧
      Machine.EndsWith (.ofRoots w₁ [Bot.handleUpdate 0 (.obj [("update_id", .int 7)])]) w₂
        (some (.failure (.raised .runtime (.str "c")) (some 0))) ∧
      w₂.events = [.note (.str "a"), .note (.str "b"), .note (.str "c")] := by
  have hplanted : Planted servingWorld [[.fn .pass]] := ⟨rfl, by simp⟩
  obtain ⟨w₁, hgrow, hbots, hruns⟩ := layers_unwind hplanted layeredGrowth
  have htraversal : Traversal (layeredGrowth.foldl Growth.extend [[.fn .pass]]) [.composer 0]
      (.pass :: threeLayers.map Layer.fn) := by
    have hinner : Traversal (layeredGrowth.foldl Growth.extend [[.fn .pass]])
        [.composer 1, .fn threeLayers[2].fn] ([threeLayers[1].fn] ++ [threeLayers[2].fn]) :=
      .composer rfl (.fn .nil) (.fn .nil)
    exact .composer rfl (.fn (.composer rfl (.fn hinner) .nil)) .nil
  have hproceed : ∀ l ∈ threeLayers.take 2, l.conduct = .proceeds := by
    simp [threeLayers, textLayer]
  have hunwinds : Layer.Unwinds 0 threeLayers _ _ := .raised hproceed rfl
  obtain ⟨-, hbot⟩ := (hruns htraversal rfl).1 hunwinds
  have hw₁ : w₁ = ((grow layeredGrowth).outcome servingWorld).2 := (congrArg Prod.snd hgrow).symm
  have hserving : w₁.bot? 0 = some { identity := some default } := hbots 0
  have hupdate : (Json.obj [("update_id", .int 7)]).get "update_id" = .ok (.int 7) := rfl
  obtain ⟨w₂, hends, hevents⟩ := hbot hserving rfl rfl hupdate (by rw [hw₁]; rfl)
  refine ⟨hplanted, w₁, w₂, hgrow, hends, ?_⟩
  rw [hevents, hw₁]
  rfl

end UpdateDispatch
