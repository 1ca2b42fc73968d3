import UpdateDispatch.Listener
import UpdateDispatch.Proofs.Condition.Addressing

/-!
# The match that conditions leave behind

Conditions are tried one after another on one context, and whatever looks at its match afterwards
relies on who wrote it last. `Condition.perform` is a condition as a computation on that context:
it writes the match inside its loops, as soon as a trigger or a command succeeds, and what has been
written stays even if the computation fails later. That it answers what `Condition.test` says, with
the same context afterwards, and fails with the context as it was (`perform_eq`), means that no
condition fails after it has written anything.

So along every run of conditions the update and the identity stay, and the match is always the
result of the last condition that answered true and is of a kind that stores one
(`trail_keeps_last_match`).
-/

namespace UpdateDispatch

/-! ## Computations on a context -/

/-- A computation on a context that can fail. -/
abbrev OnContext (α : Type) : Type := ExceptT Fault (StateM Context) α

namespace OnContext

variable {α β : Type} {c : Context}

/-- The outcome of a computation, and the context after it, also if the computation fails. -/
def outcome (p : OnContext α) (c : Context) : Except Fault α × Context := StateT.run p c

/-- What is read off the context. -/
def look (f : Context → Except Fault α) : OnContext α := do
  match f (← get) with
  | .ok a => pure a
  | .error fault => throw fault

/-- The context with a new match. -/
def store (m : Matched) : OnContext Unit := modify fun c => { c with matched := m }

/-- The first result that one of the items gives is stored. -/
def storeFirst (f : α → Except Fault (Option Matched)) : List α → OnContext Bool
  | [] => pure false
  | a :: rest => do
    match ← look fun _ => f a with
    | some m => do
      store m
      pure true
    | none => storeFirst f rest

theorem outcome_bind (p : OnContext α) (k : α → OnContext β) (c : Context) :
    (p >>= k).outcome c = match p.outcome c with
      | (.ok a, c') => (k a).outcome c'
      | (.error fault, c') => (.error fault, c') := by
  simp only [outcome, Bind.bind, ExceptT.bind, ExceptT.mk, ExceptT.bindCont, StateT.run,
    StateT.bind]
  rcases p c with ⟨_ | a, c'⟩ <;> rfl

theorem outcome_look (f : Context → Except Fault α) (c : Context) :
    (look f).outcome c = (f c, c) := by
  unfold look
  rw [outcome_bind]
  change OnContext.outcome (match f c with | .ok a => pure a | .error fault => throw fault) c = _
  rcases f c with fault | a <;> rfl

/-- Looking at the context and going on from there. -/
theorem outcome_look_bind (f : Context → Except Fault α) (k : α → OnContext β) (c : Context) :
    (look f >>= k).outcome c = match f c with
      | .ok a => (k a).outcome c
      | .error fault => (.error fault, c) := by
  rw [outcome_bind, outcome_look]
  rcases f c with fault | a <;> rfl

/-- A loop that stores ends with its first result in the context, or with the context as it was. -/
theorem outcome_storeFirst (f : α → Except Fault (Option Matched)) (items : List α) (c : Context) :
    (storeFirst f items).outcome c = match items.findSomeM? f with
      | .ok (some m) => (.ok true, { c with matched := m })
      | .ok none => (.ok false, c)
      | .error fault => (.error fault, c) := by
  induction items with
  | nil => rfl
  | cons a rest ih =>
    rw [storeFirst, outcome_look_bind, List.findSomeM?_cons]
    rcases f a with fault | _ | m
    · rfl
    · exact ih
    · rfl

end OnContext

/-! ## Searches for a first result -/

/-- Whether an item of a list is the first one that gives a result, and which one it gives. -/
def FirstGives {α β : Type} (f : α → Except Fault (Option β)) (items : List α) (a : α) (b : β) :
    Prop :=
  ∃ before after, items = before ++ a :: after ∧ (∀ passed ∈ before, f passed = .ok none) ∧
    f a = .ok (some b)

theorem FirstGives.gives {α β : Type} {f : α → Except Fault (Option β)} {items : List α} {a : α}
    {b : β} (first : FirstGives f items a b) : f a = .ok (some b) := by
  obtain ⟨_, _, _, _, gives⟩ := first
  exact gives

theorem exists_firstGives {α β : Type} {f : α → Except Fault (Option β)} {items : List α} {b : β}
    (found : items.findSomeM? f = .ok (some b)) : ∃ a, FirstGives f items a b := by
  induction items with
  | nil => cases found
  | cons a rest ih =>
    rw [List.findSomeM?_cons] at found
    rcases given : f a with fault | _ | b'
    · rw [given] at found
      cases found
    · rw [given] at found
      obtain ⟨a', before, after, rfl, none_before, gives⟩ := ih found
      exact ⟨a', a :: before, after, rfl, List.forall_mem_cons.mpr ⟨given, none_before⟩, gives⟩
    · rw [given] at found
      cases found
      exact ⟨a, [], rest, rfl, List.forall_mem_nil _, given⟩

theorem Trigger.firstMatch_eq (content : Json) (triggers : List Trigger) :
    firstMatch content triggers = triggers.findSomeM? (·.apply content) := by
  induction triggers with
  | nil => rfl
  | cons t rest ih =>
    rw [firstMatch, List.findSomeM?_cons, ih]
    rcases t.apply content with fault | _ | m <;> rfl

namespace Condition

/-- The new match that an entity gives, if it is a command that is meant. -/
def matchOf (names : List String) (own content entity : Json) : Except Fault (Option Matched) := do
  .ok ((← findCommand names own content [entity]).map fun arguments => .value (.str arguments))

/-- Looking for a command goes through the entities one by one. -/
theorem findCommand_cons (names : List String) (own content entity : Json) (rest : List Json) :
    findCommand names own content (entity :: rest) =
      match findCommand names own content [entity] with
      | .ok none => findCommand names own content rest
      | found => found := by
  -- the entities that follow matter only where this one is passed over
  simp only [findCommand, bind, Except.bind]
  rcases entity.get "type" with fault | kind
  · rfl
  dsimp only
  split
  · rfl
  rcases entity.get "offset" with fault | offset
  · rfl
  dsimp only
  split
  · rfl
  rcases entity.require "length" with fault | stop
  · rfl
  dsimp only
  rcases stop.bound with fault | bound
  · rfl
  dsimp only
  rcases content.slice (some 1) bound with fault | cut
  · rfl
  dsimp only
  split
  · next command text =>
    rcases isCommand names own command with fault | _ | _ <;> rfl
  · rfl

theorem findCommand_eq (names : List String) (own content : Json) (entities : List Json) :
    (findCommand names own content entities).map
        (Option.map fun arguments => Matched.value (.str arguments)) =
      entities.findSomeM? (matchOf names own content) := by
  induction entities with
  | nil => rfl
  | cons entity rest ih =>
    rw [findCommand_cons, List.findSomeM?_cons, ← ih, matchOf]
    rcases findCommand names own content [entity] with fault | _ | arguments <;> rfl

/-- What an entity gives is the text after a command that is meant. -/
theorem exists_of_matchOf {names : List String} {own content entity : Json} {m : Matched}
    (given : matchOf names own content entity = .ok (some m)) :
    ∃ text command, content = .str text ∧ isCommand names own command = .ok true ∧
      m = .value (.str (argumentsOf text command)) := by
  obtain ⟨found, searched, given⟩ := exists_of_bind_eq_ok given
  rcases found with _ | arguments
  · cases given
  obtain rfl : Matched.value (.str arguments) = m := by simpa using given
  simp only [findCommand] at searched
  obtain ⟨kind, -, searched⟩ := exists_of_bind_eq_ok searched
  split at searched
  · cases searched
  obtain ⟨offset, -, searched⟩ := exists_of_bind_eq_ok searched
  split at searched
  · cases searched
  obtain ⟨stop, -, searched⟩ := exists_of_bind_eq_ok searched
  obtain ⟨bound, -, searched⟩ := exists_of_bind_eq_ok searched
  obtain ⟨cut, sliced, searched⟩ := exists_of_bind_eq_ok searched
  -- only what is cut out of a text can be a command
  cases content with
  | str text =>
    cases sliced
    obtain ⟨meant, judged, searched⟩ := exists_of_bind_eq_ok searched
    cases meant with
    | false => cases searched
    | true =>
      refine ⟨text, _, rfl, judged, ?_⟩
      rw [argumentsOf, Nat.add_comm 1]
      simpa using searched.symm
  | arr vs =>
    cases sliced
    cases searched
  | null | bool | int | float | obj => cases sliced

/-! ## Conditions as computations -/

section

open OnContext

/-- What is only done if the context passes a filter; else the answer is no. -/
def guarded (present : Filter.Predicate) (p : OnContext Bool) : OnContext Bool := do
  if (← get).passes present then p else pure false

/-- A condition as a computation on the context that it is tried on. -/
def perform : Condition → OnContext Bool
  | .text present triggers => guarded present do
    let content ← look fun c => do Context.textOf (← c.post)
    storeFirst (·.apply content) triggers
  | .command present names => guarded present do
    let post ← look Context.post
    let content ← look fun _ => Context.textOf post
    let entities ← look fun _ => do (← post.getOr "entities" (.arr [])).items
    let own ← look fun c => .ok c.me.username
    storeFirst (matchOf names own content) entities
  | .field present kind name triggers => guarded present do
    let content ← look fun c => do (← c.kind kind).get name
    if content.isNull then pure false else storeFirst (·.apply content) triggers
  | condition@(.filter _) | condition@(.reaction _ _) | condition@(.chatType _) =>
    look fun c => do .ok (← condition.test c).1

end

/-- Whether a condition stores a result when it holds. -/
def stores : Condition → Bool
  | .text _ _ | .command _ _ | .field _ _ _ _ => true
  | .filter _ | .reaction _ _ | .chatType _ => false

/-- The answer of a condition, and the context after it. -/
def attempt (condition : Condition) (c : Context) : Except Fault Bool × Context :=
  match condition.test c with
  | .ok (b, c') => (.ok b, c')
  | .error fault => (.error fault, c)

theorem outcome_guarded (present : Filter.Predicate) (p : OnContext Bool) (c : Context) :
    (guarded present p).outcome c = if c.passes present then p.outcome c else (.ok false, c) := by
  unfold guarded
  rw [OnContext.outcome_bind]
  change OnContext.outcome (if c.passes present then p else pure false) c = _
  split <;> rfl

/-- A guarded computation is the condition if it is that on the contexts that pass. -/
theorem guarded_eq {condition : Condition} {present : Filter.Predicate} {p : OnContext Bool}
    {c : Context} (guard : condition.presence = some present)
    (same : c.passes present = true → p.outcome c = condition.attempt c) :
    (guarded present p).outcome c = condition.attempt c := by
  rw [outcome_guarded]
  split
  · next passes => exact same passes
  · next stopped =>
    rw [attempt, test_of_not_passes guard (Bool.eq_false_iff.mpr stopped)]

theorem judge_of_not_stores {condition : Condition} (silent : condition.stores = false)
    (c : Context) (m : Matched) : condition.judge c ≠ .ok (.acceptWith m) := by
  intro judged
  cases condition with
  | filter present =>
    simp only [judge] at judged
    split at judged <;> cases judged
  | reaction present wanted =>
    simp only [judge] at judged
    split at judged
    · cases judged
    obtain ⟨reaction, -, judged⟩ := exists_of_bind_eq_ok judged
    obtain ⟨old, -, judged⟩ := exists_of_bind_eq_ok judged
    obtain ⟨listed, -, judged⟩ := exists_of_bind_eq_ok judged
    obtain ⟨new, -, judged⟩ := exists_of_bind_eq_ok judged
    obtain ⟨added, -, judged⟩ := exists_of_bind_eq_ok judged
    cases added <;> cases judged
  | chatType types =>
    simp only [judge] at judged
    obtain ⟨chat, -, judged⟩ := exists_of_bind_eq_ok judged
    split at judged
    · cases judged
    obtain ⟨kind, -, judged⟩ := exists_of_bind_eq_ok judged
    obtain ⟨key, -, judged⟩ := exists_of_bind_eq_ok judged
    split at judged <;> cases judged
  | text | command | field => cases silent

/-- A condition that stores nothing leaves the context as it was. -/
theorem test_of_not_stores {condition : Condition} (silent : condition.stores = false)
    {c c' : Context} {b : Bool} (tested : condition.test c = .ok (b, c')) : c' = c := by
  obtain ⟨verdict, judged, settled⟩ := exists_of_bind_eq_ok tested
  cases verdict with
  | reject | accept =>
    cases settled
    rfl
  | acceptWith m => exact absurd judged (judge_of_not_stores silent c m)

theorem look_test_eq {condition : Condition} (silent : condition.stores = false) (c : Context) :
    (OnContext.look fun c => do .ok (← condition.test c).1).outcome c = condition.attempt c := by
  rw [OnContext.outcome_look, attempt]
  rcases tested : condition.test c with fault | ⟨b, c'⟩
  · rfl
  · obtain rfl := test_of_not_stores silent tested
    rfl

/-- A condition as a computation answers what it answers when it is tested, and leaves the same
context behind. -/
theorem perform_eq (condition : Condition) (c : Context) :
    condition.perform.outcome c = condition.attempt c := by
  cases condition with
  | text present triggers =>
    refine guarded_eq rfl fun passes => ?_
    simp only [OnContext.outcome_look_bind, OnContext.outcome_storeFirst, ← Trigger.firstMatch_eq]
    simp only [attempt, test, judge, passes, bind, Except.bind]
    rcases c.post with fault | post
    · rfl
    dsimp only
    rcases Context.textOf post with fault | content
    · rfl
    dsimp only
    rcases Trigger.firstMatch content triggers with fault | _ | m <;> rfl
  | command present names =>
    refine guarded_eq rfl fun passes => ?_
    simp only [OnContext.outcome_look_bind, OnContext.outcome_storeFirst, ← findCommand_eq]
    simp only [attempt, test, judge, passes, bind, Except.bind]
    rcases c.post with fault | post
    · rfl
    dsimp only
    rcases Context.textOf post with fault | content
    · rfl
    dsimp only
    rcases post.getOr "entities" (.arr []) with fault | listed
    · rfl
    dsimp only
    rcases listed.items with fault | entities
    · rfl
    dsimp only
    rcases findCommand names c.me.username content entities with fault | _ | arguments <;> rfl
  | field present kind name triggers =>
    refine guarded_eq rfl fun passes => ?_
    simp only [OnContext.outcome_look_bind]
    simp only [attempt, test, judge, passes, bind, Except.bind]
    rcases c.kind kind with fault | part
    · rfl
    dsimp only
    rcases part.get name with fault | content
    · rfl
    dsimp only
    split
    · rfl
    rw [OnContext.outcome_storeFirst, ← Trigger.firstMatch_eq]
    rcases Trigger.firstMatch content triggers with fault | _ | m <;> rfl
  | filter | reaction | chatType => rw [perform, look_test_eq rfl]

/-! ## What is stored -/

/-- Whether a result is the one that a condition stores: that of its first trigger that succeeds on
the content, or the text after the first command that is meant. -/
def Stores (c : Context) (m : Matched) : Condition → Prop
  | .text _ triggers => ∃ post content t, c.post = .ok post ∧ Context.textOf post = .ok content ∧
      FirstGives (·.apply content) triggers t m
  | .command _ names => ∃ post listed entities entity text command, c.post = .ok post ∧
      Context.textOf post = .ok (.str text) ∧ post.getOr "entities" (.arr []) = .ok listed ∧
      listed.items = .ok entities ∧
      FirstGives (matchOf names c.me.username (.str text)) entities entity m ∧
      isCommand names c.me.username command = .ok true ∧
      m = .value (.str (argumentsOf text command))
  | .field _ kind name triggers => ∃ part content t, c.kind kind = .ok part ∧
      part.get name = .ok content ∧ FirstGives (·.apply content) triggers t m
  | .filter _ | .reaction _ _ | .chatType _ => False

/-- A condition that stores a result rejects, or accepts with that result. -/
theorem judge_of_stores {condition : Condition} (storing : condition.stores = true) {c : Context}
    {verdict : Verdict} (judged : condition.judge c = .ok verdict) :
    verdict = .reject ∨ ∃ m, verdict = .acceptWith m ∧ condition.Stores c m := by
  cases condition with
  | text present triggers =>
    simp only [judge] at judged
    split at judged
    · exact .inl (Except.ok.inj judged).symm
    obtain ⟨post, post_eq, judged⟩ := exists_of_bind_eq_ok judged
    obtain ⟨content, content_eq, judged⟩ := exists_of_bind_eq_ok judged
    obtain ⟨result, found, judged⟩ := exists_of_bind_eq_ok judged
    cases result with
    | none => exact .inl (Except.ok.inj judged).symm
    | some m =>
      rw [Trigger.firstMatch_eq] at found
      obtain ⟨t, first⟩ := exists_firstGives found
      exact .inr ⟨m, (Except.ok.inj judged).symm, post, content, t, post_eq, content_eq, first⟩
  | command present names =>
    simp only [judge] at judged
    split at judged
    · exact .inl (Except.ok.inj judged).symm
    obtain ⟨post, post_eq, judged⟩ := exists_of_bind_eq_ok judged
    obtain ⟨content, content_eq, judged⟩ := exists_of_bind_eq_ok judged
    obtain ⟨listed, listed_eq, judged⟩ := exists_of_bind_eq_ok judged
    obtain ⟨entities, entities_eq, judged⟩ := exists_of_bind_eq_ok judged
    obtain ⟨result, searched, judged⟩ := exists_of_bind_eq_ok judged
    cases result with
    | none => exact .inl (Except.ok.inj judged).symm
    | some arguments =>
      have found := findCommand_eq names c.me.username content entities
      rw [searched] at found
      obtain ⟨entity, first⟩ := exists_firstGives found.symm
      obtain ⟨text, command, text_eq, meant, stored⟩ := exists_of_matchOf first.gives
      rw [text_eq] at content_eq first
      exact .inr ⟨_, (Except.ok.inj judged).symm, post, listed, entities, entity, text, command,
        post_eq, content_eq, listed_eq, entities_eq, first, meant, stored⟩
  | field present kind name triggers =>
    simp only [judge] at judged
    split at judged
    · exact .inl (Except.ok.inj judged).symm
    obtain ⟨part, part_eq, judged⟩ := exists_of_bind_eq_ok judged
    obtain ⟨content, content_eq, judged⟩ := exists_of_bind_eq_ok judged
    split at judged
    · exact .inl (Except.ok.inj judged).symm
    obtain ⟨result, found, judged⟩ := exists_of_bind_eq_ok judged
    cases result with
    | none => exact .inl (Except.ok.inj judged).symm
    | some m =>
      rw [Trigger.firstMatch_eq] at found
      obtain ⟨t, first⟩ := exists_firstGives found
      exact .inr ⟨m, (Except.ok.inj judged).symm, part, content, t, part_eq, content_eq, first⟩
  | filter | reaction | chatType => cases storing

/-- What one condition does: it stores its result, it answers without storing anything, or it
fails. -/
theorem test_cases (condition : Condition) (c : Context) :
    (∃ m, condition.test c = .ok (true, { c with matched := m }) ∧ condition.stores = true ∧
        condition.Stores c m) ∨
      (∃ b, condition.test c = .ok (b, c) ∧ (b = true → condition.stores = false)) ∨
      ∃ fault, condition.test c = .error fault := by
  rcases judged : condition.judge c with fault | verdict
  · exact .inr (.inr ⟨fault, by rw [test, judged]; rfl⟩)
  cases storing : condition.stores with
  | false =>
    rcases settled : c.settle verdict with ⟨b, c'⟩
    have tested : condition.test c = .ok (b, c') := by
      rw [test, judged, ← settled]
      rfl
    obtain rfl := test_of_not_stores storing tested
    exact .inr (.inl ⟨b, tested, fun _ => rfl⟩)
  | true =>
    rcases judge_of_stores storing judged with rfl | ⟨m, rfl, stored⟩
    · exact .inr (.inl ⟨false, by rw [test, judged]; rfl, by simp⟩)
    · exact .inl ⟨m, by rw [test, judged]; rfl, rfl, stored⟩

end Condition

/-! ## Listeners that are built -/

namespace Listener

/-- Whether what a listener waits for leaves a match. -/
def stores : Listener → Bool
  | .text _ | .command _ | .field _ _ => true
  | .filter _ | .reaction _ | .chatType _ => false

/-- What is built from a listener stores a result exactly if the listener is of a kind for it. -/
theorem stores_eq {listener : Listener} {condition : Condition}
    (built : listener.condition = .ok condition) : condition.stores = listener.stores := by
  cases listener with
  | filter query | text triggers | field f triggers | chatType types =>
    obtain ⟨part, -, built⟩ := exists_of_bind_eq_ok built
    cases built
    rfl
  | command names =>
    obtain ⟨present, -, built⟩ := exists_of_bind_eq_ok built
    obtain ⟨bare, -, built⟩ := exists_of_bind_eq_ok built
    cases built
    rfl
  | reaction wanted =>
    obtain ⟨w, rfl⟩ := Condition.eq_reaction_of_ofReaction built
    rfl

end Listener

/-- A listener with the condition that it was built to. -/
structure BuiltListener where
  listener : Listener
  condition : Condition
  built : listener.condition = .ok condition

/-! ## Runs -/

/-- One step of a run: the listener whose condition was tried, the answer, and the context before
and after it. -/
structure Tried where
  of : BuiltListener
  before : Context
  answer : Except Fault Bool
  after : Context

/-- A condition tried on a context. -/
def BuiltListener.tried (p : BuiltListener) (c : Context) : Tried :=
  let (answer, after) := p.condition.perform.outcome c
  { of := p, before := c, answer, after }

/-- The run of conditions one after another on one context. A failure of one of them does not stop
the others. -/
def trail (c : Context) : List BuiltListener → List Tried
  | [] => []
  | p :: ps => p.tried c :: trail (p.tried c).after ps

namespace Tried

variable {t : Tried} {steps : List Tried} {c : Context} {m : Matched}

/-- Whether a step left a match: its listener is of a kind that leaves one, and it answered true. -/
def Left (t : Tried) : Prop := t.of.listener.stores = true ∧ t.answer = .ok true

/-- What holds of each step: it answers as the condition does when it is tested; the update and the
identity stay; and the match is the result of the condition, if the step left one, or else nothing
has changed. -/
structure Sound (t : Tried) : Prop where
  tested : t.of.condition.test t.before = t.answer.map fun b => (b, t.after)
  update : t.after.update = t.before.update
  me : t.after.me = t.before.me
  left : t.Left → t.of.condition.Stores t.before t.after.matched
  kept : ¬ t.Left → t.after = t.before

/-- Whether a result is what the last step that left a match has left, or the match at the start if
there was no such step. -/
def LastLeft (c : Context) (steps : List Tried) (m : Matched) : Prop :=
  (∃ earlier t later, steps = earlier ++ t :: later ∧ t.Left ∧
      t.of.condition.Stores t.before m ∧ ∀ u ∈ later, ¬ u.Left) ∨
    (∀ t ∈ steps, ¬ t.Left) ∧ m = c.matched

theorem LastLeft.cons (sound : t.Sound) (last : LastLeft t.after steps m) :
    LastLeft t.before (t :: steps) m := by
  rcases last with ⟨earlier, u, later, rfl, left, stored, none_later⟩ | ⟨none_left, rfl⟩
  · exact .inl ⟨t :: earlier, u, later, rfl, left, stored, none_later⟩
  · by_cases left : t.Left
    · exact .inl ⟨[], t, steps, rfl, left, sound.left left, none_left⟩
    · refine .inr ⟨List.forall_mem_cons.mpr ⟨left, none_left⟩, ?_⟩
      rw [sound.kept left]

end Tried

theorem BuiltListener.tried_sound (p : BuiltListener) (c : Context) : (p.tried c).Sound := by
  have tried_eq : p.tried c = ⟨p, c, (p.condition.attempt c).1, (p.condition.attempt c).2⟩ := by
    rw [tried, Condition.perform_eq]
  rw [tried_eq]
  rcases p.condition.test_cases c with ⟨m, tested, storing, stored⟩ | ⟨b, tested, silent⟩ |
    ⟨fault, failed⟩
  · simp only [Condition.attempt, tested]
    exact ⟨tested, rfl, rfl, fun _ => stored,
      fun not_left => absurd ⟨Listener.stores_eq p.built ▸ storing, rfl⟩ not_left⟩
  · simp only [Condition.attempt, tested]
    refine ⟨tested, rfl, rfl, fun left => ?_, fun _ => rfl⟩
    obtain ⟨storing, answered⟩ := left
    rw [← Listener.stores_eq p.built, silent (Except.ok.inj answered)] at storing
    cases storing
  · simp only [Condition.attempt, failed]
    refine ⟨failed, rfl, rfl, fun left => ?_, fun _ => rfl⟩
    cases left.2

theorem trail_sound {c : Context} {ps : List BuiltListener} {earlier later : List Tried}
    {step : Tried} (split : trail c ps = earlier ++ step :: later) :
    step.Sound ∧ step.after.update = c.update ∧ step.after.me = c.me ∧
      Tried.LastLeft c (earlier ++ [step]) step.after.matched := by
  induction ps generalizing c earlier with
  | nil => simp [trail] at split
  | cons p ps ih =>
    have sound := p.tried_sound c
    cases earlier with
    | nil =>
      obtain ⟨rfl, -⟩ := List.cons.inj split
      exact ⟨sound, sound.update, sound.me, Tried.LastLeft.cons sound (.inr ⟨by simp, rfl⟩)⟩
    | cons first earlier =>
      obtain ⟨rfl, rest⟩ := List.cons.inj split
      obtain ⟨step_sound, update, me, last⟩ := ih rest
      exact ⟨step_sound, update.trans sound.update, me.trans sound.me,
        Tried.LastLeft.cons sound last⟩

/-- Along a run of conditions, whatever they answer and whichever of them fail, every step answers
what the condition does when it is tested, the update and the identity stay, and the match is the
result of the last condition so far that answered true and is of a kind that stores one, or the
match at the start if there is none. A condition that refuses or fails, or is of another kind,
leaves the context as it was. -/
theorem trail_keeps_last_match {c : Context} {ps : List BuiltListener} {earlier later : List Tried}
    {step : Tried} (split : trail c ps = earlier ++ step :: later) :
    step.of.condition.test step.before = step.answer.map (fun b => (b, step.after)) ∧
      step.after.update = c.update ∧ step.after.me = c.me ∧
      Tried.LastLeft c (earlier ++ [step]) step.after.matched ∧
      (step.of.listener.stores = false ∨ step.answer ≠ .ok true → step.after = step.before) := by
  obtain ⟨sound, update, me, last⟩ := trail_sound split
  refine ⟨sound.tested, update, me, last, fun silent => sound.kept fun left => ?_⟩
  rcases silent with other | refused
  · exact Bool.false_ne_true (other.symm.trans left.1)
  · exact refused left.2

/-- A message with a text and a command of no length, in a private chat. -/
def askMessage : Context :=
  { update := .obj [("message", .obj [("text", .str "ask"),
      ("chat", .obj [("type", .str "private")]),
      ("entities", .arr [.obj [("type", .str "bot_command"), ("offset", .int 0)]])])]
    me := { id := .int 42, username := .str "helper" } }

/-- A listener for a text. -/
def askBuilt : BuiltListener where
  listener := .text [.equals (.str "ask")]
  condition := .text Condition.textFilter [.equals (.str "ask")]
  built := by
    simp only [Listener.condition, Condition.ofText, Condition.compile_textFilter]
    rfl

/-- A listener for a command. -/
def banBuilt : BuiltListener where
  listener := .command (.str "ban")
  condition := .command Condition.commandFilter ["ban"]
  built := Condition.ofCommand_names rfl (by decide)

/-- A listener for private chats. -/
def privateBuilt : BuiltListener where
  listener := .chatType (.str "private")
  condition := .chatType [.str "private"]
  built := rfl

/-- The match of the text stays, through a command that cannot be read and a chat that is found. -/
theorem trail_keeps_last_match_of_ask :
    ∃ asked failed found, trail askMessage [askBuilt, banBuilt, privateBuilt] =
        [asked, failed] ++ found :: [] ∧
      asked.Left ∧ failed.answer = .error (.noKey "length") ∧ found.answer = .ok true ∧
      Tried.LastLeft askMessage [asked, failed, found] found.after.matched ∧
      found.after.matched = .value (.str "ask") := by
  let asked : Context := { askMessage with matched := .value (.str "ask") }
  have split : trail askMessage [askBuilt, banBuilt, privateBuilt] =
      [askBuilt.tried askMessage, banBuilt.tried asked] ++ privateBuilt.tried asked :: [] := rfl
  exact ⟨_, _, _, split, ⟨rfl, rfl⟩, rfl, rfl, (trail_keeps_last_match split).2.2.2.1, rfl⟩

end UpdateDispatch
