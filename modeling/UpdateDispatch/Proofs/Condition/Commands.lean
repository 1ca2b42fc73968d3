import UpdateDispatch.Proofs.Condition.TypedUpdate

/-!
# Looking for commands

A command condition goes through the entities of the message that it picks. Over typed entities,
those that are no command at the start are passed over, and the first one that is makes the
condition cut a piece out of the content: in a text this always gives an answer
(`exists_findCommand_str`), and where there is no content it fails (`findCommand_null`).
-/

namespace UpdateDispatch.Condition

/-- Whether an entity is a command at the start of a text. -/
def StartsCommand (entity : Json) : Prop :=
  entity.field "type" = .str "bot_command" ∧ entity.field "offset" = .int 0

/-- Whether a message or post has a command at the start, as far as its entities go. -/
def HasCommand (post : Json) : Prop :=
  ∃ entities, post.getOr "entities" (.arr []) = .ok (.arr entities) ∧
    ∃ entity ∈ entities, StartsCommand entity

variable {c : Context} {content : Json} {present : Filter.Predicate} {names : List String}
  {username : Json} {entities : List Json} {entity : Json}

/-- The outcome of a search for a command: the arguments that it found are the new match. -/
def sliced (c : Context) : Option String → Bool × Context
  | some arguments => (true, { c with matched := .value (.str arguments) })
  | none => (false, c)

/-- Entities other than commands at the start are passed over. -/
theorem findCommand_cons_of_not (typed : entity.IsEntity) (other : ¬ StartsCommand entity) :
    findCommand names username content (entity :: entities) =
      findCommand names username content entities := by
  have get_eq := Json.get_eq_field typed.isObject
  by_cases kind : entity.field "type" = .str "bot_command"
  · have offset : (entity.field "offset").same (.int 0) = false := by
      obtain ⟨n, offset_eq⟩ := typed.offset
      have nonzero : n ≠ 0 := fun zero => other ⟨kind, by rw [offset_eq, zero]⟩
      simpa [offset_eq, Json.same, Json.asInt?] using nonzero
    simp [findCommand, get_eq, kind, Json.same, offset, bind, Except.bind]
  · have kind : (entity.field "type").same (.str "bot_command") = false := by
      rw [← Bool.not_eq_true, Json.same_iff_eq_str]
      exact kind
    simp [findCommand, get_eq, kind, bind, Except.bind]

/-- Whether a piece is what an entity covers of a text that it stands at the start of, without the
first character. -/
def Covers (entity : Json) (text cut : String) : Prop :=
  ∃ n, entity.field "length" = .int n ∧
    cut = String.ofList (Json.sliceList text.toList (some 1) (some n))

/-- A command at the start of a text is cut out of it and, if it is meant, found. -/
theorem findCommand_cons_str (names : List String) (username : Json) (entities : List Json)
    (typed : entity.IsEntity) (starts : StartsCommand entity) (text : String) : ∃ cut : String,
    Covers entity text cut ∧
    findCommand names username (.str text) (entity :: entities) = (do
      if ← isCommand names username cut then
        .ok (some (String.ofList (Text.trimStart (text.toList.drop (cut.length + 1)))))
      else findCommand names username (.str text) entities) := by
  have get_eq := Json.get_eq_field typed.isObject
  obtain ⟨n, length_eq⟩ := typed.length
  have there : entity.field "length" ≠ .null := by simp [length_eq]
  have required := Json.require_eq_field there
  refine ⟨String.ofList (Json.sliceList text.toList (some 1) (some n)), ⟨n, length_eq, rfl⟩, ?_⟩
  rw [findCommand]
  simp only [get_eq, starts.1, starts.2, required, length_eq, Json.bound, bind, Except.bind]
  rfl

/-- Nothing can be cut out of what is missing. -/
theorem findCommand_cons_null (typed : entity.IsEntity) (starts : StartsCommand entity) :
    ∃ what, findCommand names username .null (entity :: entities) = .error (.mismatch what) := by
  have get_eq := Json.get_eq_field typed.isObject
  obtain ⟨n, length_eq⟩ := typed.length
  have there : entity.field "length" ≠ .null := by simp [length_eq]
  have required := Json.require_eq_field there
  apply Exists.intro
  rw [findCommand]
  simp only [get_eq, starts.1, starts.2, required, length_eq, Json.bound, bind, Except.bind]
  rfl

theorem exists_isCommand (names : List String) (own command : String) :
    ∃ b, isCommand names (.str own) command = .ok b := by
  unfold isCommand
  split
  · exact ⟨true, rfl⟩
  · split <;> exact ⟨_, rfl⟩

/-- In a text a command is found or not. -/
theorem exists_findCommand_str (names : List String) (own text : String)
    (typed : ∀ entity ∈ entities, entity.IsEntity) :
    ∃ found, findCommand names (.str own) (.str text) entities = .ok found := by
  induction entities with
  | nil => exact ⟨none, rfl⟩
  | cons entity entities ih =>
    rw [List.forall_mem_cons] at typed
    obtain ⟨found, later⟩ := ih typed.2
    by_cases starts : StartsCommand entity
    · obtain ⟨cut, -, unfolded⟩ :=
        findCommand_cons_str names (.str own) entities typed.1 starts text
      obtain ⟨meant, judged⟩ := exists_isCommand names own cut
      rw [unfolded, judged, later]
      cases meant <;> exact ⟨_, rfl⟩
    · exact ⟨found, by rw [findCommand_cons_of_not typed.1 starts, later]⟩

theorem findCommand_null (names : List String) (username : Json)
    (typed : ∀ entity ∈ entities, entity.IsEntity)
    (starts : ∃ entity ∈ entities, StartsCommand entity) :
    ∃ what, findCommand names username .null entities = .error (.mismatch what) := by
  induction entities with
  | nil => simp at starts
  | cons entity entities ih =>
    rw [List.forall_mem_cons] at typed
    by_cases here : StartsCommand entity
    · exact findCommand_cons_null typed.1 here
    · rw [findCommand_cons_of_not typed.1 here]
      exact ih typed.2 (by simpa [here] using starts)

theorem findCommand_of_none_starts (typed : ∀ entity ∈ entities, entity.IsEntity)
    (none_starts : ∀ entity ∈ entities, ¬ StartsCommand entity) :
    findCommand names username content entities = .ok none := by
  induction entities with
  | nil => rfl
  | cons entity entities ih =>
    rw [List.forall_mem_cons] at typed none_starts
    rw [findCommand_cons_of_not typed.1 none_starts.1, ih typed.2 none_starts.2]

theorem test_command (names : List String) (passes : c.passes present = true)
    (object : c.update.IsObject) (post : (postOf c.update).IsObject)
    (items : (postOf c.update).getOr "entities" (.arr []) = .ok (.arr entities)) :
    (Condition.command present names).test c =
      (findCommand names c.me.username (contentOf (postOf c.update)) entities).map (sliced c) := by
  simp only [test, judge, passes, post_eq object, textOf_eq post, items, Json.items, bind,
    Except.bind]
  rcases findCommand names c.me.username (contentOf (postOf c.update)) entities with
    fault | _ | arguments <;> rfl

end UpdateDispatch.Condition
