import UpdateDispatch.Listener
import UpdateDispatch.Proofs.Condition.Commands
import UpdateDispatch.Proofs.Condition.Triggers

/-!
# Where conditions stray

A condition looks at an update twice: its filter asks whether some update kind has what it needs,
and then it picks the part that it reads by rules of its own. On a typed update nothing else can go
wrong than that the two do not go together (`Listener.Strays`): the message that is picked has no
content, or a list is null, while it was another part, or the bare presence of a part, that passed
the filter.

Where a condition does not stray, it answers, and a text that it compares or cuts is found in a part
that passes the filter on its own. Where it does, it fails, unless it has nothing to search the
missing text for (`Listener.answers_or_strays`).
-/

namespace UpdateDispatch

namespace Listener

open Condition

/-- Whether the triggers of a listener are for texts. -/
def Textual : Listener → Prop
  | .text triggers | .field _ triggers => ∀ t ∈ triggers, t.Textual
  | _ => True

/-- Whether the condition of a listener reads a part of an update other than what its filter found:
a message without content while a channel post has some, a message without text but with a command
in it, or a list that is null. -/
def Strays (c : Context) : Listener → Prop
  | .text _ => c.passes textFilter = true ∧ contentOf (postOf c.update) = .null
  | .command _ => c.passes commandFilter = true ∧
      ((postOf c.update).getOr "entities" (.arr []) = .ok .null ∨
        contentOf (postOf c.update) = .null ∧ HasCommand (postOf c.update))
  | .reaction _ => c.passes reactionFilter = true ∧
      ((c.update.field "message_reaction").getOr "new_reaction" (.arr []) = .ok .null ∨
        (c.update.field "message_reaction").getOr "old_reaction" (.arr []) = .ok .null ∧
          (c.update.field "message_reaction").getOr "new_reaction" (.arr []) ≠ .ok (.arr []))
  | _ => False

/-- Whether what a condition reads has to be there: a text that is only compared need not be. -/
def Searches : Listener → Prop
  | .text triggers => ∃ r, .pattern r ∈ triggers
  | _ => True

/-- What the answer of a condition rests on if its filter lets an update pass: wherever a text is
compared or cut, one that is taken from a part that passes the filter on its own. -/
def Grounded (c : Context) (condition : Condition) : Listener → Prop
  | .text triggers => c.passes textFilter = true →
      ∃ kind ∈ postKinds, ∃ s, TakenFrom textFilter c kind contentFields s ∧
        condition.test c = c.matchTriggers (.str s) triggers
  | .command _ => c.passes commandFilter = true →
      condition.test c = .ok (false, c) ∧ ¬ HasCommand (postOf c.update) ∨
        ∃ kind ∈ postKinds, ∃ s names entities, TakenFrom commandFilter c kind contentFields s ∧
          (c.update.field kind).field "entities" = .arr entities ∧
          condition = .command commandFilter names ∧
          condition.test c = (findCommand names c.me.username (.str s) entities).map (sliced c)
  | .field f triggers => c.passes f.filter = true →
      condition.test c = .ok (false, c) ∧ (c.update.field f.kind).field f.field = .null ∨
        ∃ s, TakenFrom f.filter c f.kind [f.field] s ∧
          condition.test c = c.matchTriggers (.str s) triggers
  | _ => True

end Listener

namespace Condition

variable {c : Context} {triggers : List Trigger} {names : List String} {f : TriggerField}

/-- A text condition on a typed update: its filter lets a content pass, so some message is there. -/
theorem text_grounded (triggers : List Trigger) (typed : TypedUpdate c.update)
    (passes : c.passes textFilter = true) (there : contentOf (postOf c.update) ≠ .null) :
    ∃ kind ∈ postKinds, ∃ s, TakenFrom textFilter c kind contentFields s ∧
      (Condition.text textFilter triggers).test c = c.matchTriggers (.str s) triggers := by
  obtain ⟨kind, of_post, post_eq⟩ := exists_postOf_eq c.update
  have present : contentOf (c.update.field kind) ≠ .null := post_eq ▸ there
  obtain ⟨key, of_content, s, text_eq, content_eq⟩ := typed.isText_contentOf of_post present
  have taken : TakenFrom textFilter c kind contentFields s :=
    ⟨⟨key, of_content, text_eq⟩, passes_only_textFilter of_post present⟩
  refine ⟨kind, of_post, s, taken, ?_⟩
  have post := typed.isObject_postOf (ne_null_of_contentOf there)
  rw [test_text passes post typed.isObject, post_eq, content_eq]

theorem text_strays (typed : TypedUpdate c.update) (textual : ∀ t ∈ triggers, t.Textual)
    (passes : c.passes textFilter = true) (missing : contentOf (postOf c.update) = .null) :
    (∃ r, .pattern r ∈ triggers) ∧
        (∃ what, (Condition.text textFilter triggers).test c = .error (.mismatch what)) ∨
      (∀ r, .pattern r ∉ triggers) ∧
        (Condition.text textFilter triggers).test c = .ok (false, c) := by
  obtain ⟨kind, of_post, present⟩ := passes_textFilter_iff.mp passes
  have post := typed.isObject_postOf (postOf_ne_null of_post (ne_null_of_contentOf present))
  rw [test_text passes post typed.isObject, missing]
  exact Trigger.matchTriggers_null c textual

theorem field_entities_of_mem {post entity : Json} {entities : List Json} (object : post.IsObject)
    (items : post.getOr "entities" (.arr []) = .ok (.arr entities)) (mem : entity ∈ entities) :
    post.field "entities" = .arr entities := by
  rcases Json.getOr_cases object "entities" (.arr []) with there | ⟨-, missing⟩
  · exact Except.ok.inj (there.symm.trans items)
  · have none_there : [] = entities := Json.arr.inj (Except.ok.inj (missing.symm.trans items))
    simp [← none_there] at mem

/-- A message with a command at the start passes the filter for commands. -/
theorem satisfies_of_starts {kind : String} {entity : Json} {entities : List Json}
    (list_eq : (c.update.field kind).field "entities" = .arr entities) (mem : entity ∈ entities)
    (starts : StartsCommand entity) :
    Filter.Satisfies c.update c.me.id [kind, "entities", "bot_command"] := by
  have nonempty : (Json.arr entities).truthy = true := by
    simpa [Json.truthy] using List.ne_nil_of_mem mem
  have there : (c.update.field kind).field "entities" ≠ .null := by simp [list_eq]
  refine ⟨Json.truthy_of_field there, list_eq ▸ nonempty, entity,
    by simpa [list_eq, Json.listed] using mem, ?_, ?_⟩
  · rw [Json.isNull_eq_false_iff]
    rintro rfl
    simpa [Json.field_null] using starts.1
  · rw [Filter.Tagged, if_neg (by decide)]
    exact .inr (Json.same_iff_eq_str.mpr starts.1)

theorem isObject_post_of_passes (typed : TypedUpdate c.update)
    (passes : c.passes commandFilter = true) : (postOf c.update).IsObject := by
  obtain ⟨kind, of_post, satisfies⟩ := passes_commandFilter_iff.mp passes
  exact typed.isObject_postOf (postOf_ne_null of_post (Json.ne_null_of_truthy satisfies.1))

theorem entities_cases (typed : TypedUpdate c.update) (post : (postOf c.update).IsObject) :
    (∃ entities, (postOf c.update).getOr "entities" (.arr []) = .ok (.arr entities) ∧
        ∀ entity ∈ entities, entity.IsEntity) ∨
      (postOf c.update).getOr "entities" (.arr []) = .ok .null := by
  obtain ⟨kind, of_post, picked⟩ := exists_postOf_eq c.update
  exact Json.getOr_list_cases post (picked ▸ typed.entities kind of_post)

/-- A command condition on a typed update whose picked message has a list of entities. -/
theorem command_grounded (names : List String) {own : String} (typed : TypedUpdate c.update)
    (named : c.me.username = .str own) (passes : c.passes commandFilter = true)
    (listed : (postOf c.update).getOr "entities" (.arr []) ≠ .ok .null)
    (there : HasCommand (postOf c.update) → contentOf (postOf c.update) ≠ .null) :
    (Condition.command commandFilter names).test c = .ok (false, c) ∧
        ¬ HasCommand (postOf c.update) ∨
      ∃ kind ∈ postKinds, ∃ s entities, TakenFrom commandFilter c kind contentFields s ∧
        (c.update.field kind).field "entities" = .arr entities ∧
        (∃ found, findCommand names c.me.username (.str s) entities = .ok found) ∧
        (Condition.command commandFilter names).test c =
          (findCommand names c.me.username (.str s) entities).map (sliced c) := by
  have post := isObject_post_of_passes typed passes
  obtain ⟨kind, of_post, picked⟩ := exists_postOf_eq c.update
  obtain ⟨entities, items, entities_typed⟩ := (entities_cases typed post).resolve_right listed
  have tested := test_command names passes typed.isObject post items
  by_cases starts : ∃ entity ∈ entities, StartsCommand entity
  · have has : HasCommand (postOf c.update) := ⟨entities, items, starts⟩
    obtain ⟨entity, mem, starts⟩ := starts
    have list_eq := picked ▸ field_entities_of_mem post items mem
    obtain ⟨key, of_content, s, text_eq, content_eq⟩ :=
      typed.isText_contentOf of_post (picked ▸ there has)
    have taken : TakenFrom commandFilter c kind contentFields s :=
      ⟨⟨key, of_content, text_eq⟩,
        passes_only_commandFilter of_post (satisfies_of_starts list_eq mem starts)⟩
    refine .inr ⟨kind, of_post, s, entities, taken, list_eq, ?_, ?_⟩
    · rw [named]
      exact exists_findCommand_str names own s entities_typed
    · rw [tested, picked, content_eq]
  · have none_starts : ∀ entity ∈ entities, ¬ StartsCommand entity :=
      fun entity mem here => starts ⟨entity, mem, here⟩
    refine .inl ⟨?_, ?_⟩
    · rw [tested, findCommand_of_none_starts entities_typed none_starts]
      rfl
    · rintro ⟨entities', items', starts'⟩
      obtain rfl : entities = entities' := Json.arr.inj (Except.ok.inj (items.symm.trans items'))
      exact starts starts'

theorem command_strays (typed : TypedUpdate c.update) (passes : c.passes commandFilter = true)
    (strays : (postOf c.update).getOr "entities" (.arr []) = .ok .null ∨
      contentOf (postOf c.update) = .null ∧ HasCommand (postOf c.update)) :
    ∃ what, (Condition.command commandFilter names).test c = .error (.mismatch what) := by
  have post := isObject_post_of_passes typed passes
  rcases strays with null | ⟨missing, entities, items, starts⟩
  · apply Exists.intro
    simp only [test, judge, passes, post_eq typed.isObject, textOf_eq post, null, Json.items, bind,
      Except.bind]
    rfl
  · obtain ⟨entities', items', entities_typed⟩ :=
      (entities_cases typed post).resolve_right (by simp [items])
    obtain rfl : entities = entities' := Json.arr.inj (Except.ok.inj (items.symm.trans items'))
    obtain ⟨what, failed⟩ := findCommand_null names c.me.username entities_typed starts
    refine ⟨what, ?_⟩
    rw [test_command names passes typed.isObject post items, missing, failed]
    rfl

/-! ### Reactions, chats and fields -/

theorem reaction_cases (typed : TypedUpdate c.update) (list : String)
    (known : list ∈ ["old_reaction", "new_reaction"])
    (change : (c.update.field "message_reaction").IsObject) :
    (∃ items, (c.update.field "message_reaction").getOr list (.arr []) = .ok (.arr items) ∧
        ∀ item ∈ items, item.IsReaction) ∨
      (c.update.field "message_reaction").getOr list (.arr []) = .ok .null :=
  Json.getOr_list_cases change (typed.reactions list known)

theorem isObject_reaction_of_passes (typed : TypedUpdate c.update)
    (passes : c.passes reactionFilter = true) :
    (c.update.field "message_reaction").IsObject := by
  rw [passes_reactionFilter, Bool.not_eq_true'] at passes
  exact typed.kinds _ (by simp [Context.kinds]) (Json.isNull_eq_false_iff.mp passes)

theorem judge_reaction (w : WantedReactions) (typed : TypedUpdate c.update)
    (passes : c.passes reactionFilter = true) {old new : Json}
    (old_eq : (c.update.field "message_reaction").getOr "old_reaction" (.arr []) = .ok old)
    (new_eq : (c.update.field "message_reaction").getOr "new_reaction" (.arr []) = .ok new) :
    (Condition.reaction reactionFilter w).judge c = (do
      let added ← w.anyAdded old (← new.items)
      .ok (if added then .accept else .reject)) := by
  simp only [judge, passes, kind_eq typed.isObject, old_eq, new_eq, bind, Except.bind]
  rfl

theorem reaction_answers (w : WantedReactions) (typed : TypedUpdate c.update)
    (passes : c.passes reactionFilter = true)
    (new_there : (c.update.field "message_reaction").getOr "new_reaction" (.arr []) ≠ .ok .null)
    (old_there : (c.update.field "message_reaction").getOr "old_reaction" (.arr []) = .ok .null →
      (c.update.field "message_reaction").getOr "new_reaction" (.arr []) = .ok (.arr [])) :
    ∃ accepted, (Condition.reaction reactionFilter w).test c = .ok (accepted, c) := by
  have change := isObject_reaction_of_passes typed passes
  obtain ⟨news, new_eq, news_typed⟩ :=
    (reaction_cases typed "new_reaction" (by simp) change).resolve_right new_there
  rcases reaction_cases typed "old_reaction" (by simp) change with
    ⟨olds, old_eq, olds_typed⟩ | null
  · obtain ⟨b, tested, -⟩ := test_reaction_eq w ⟨change, old_eq, new_eq, olds_typed, news_typed⟩
    exact ⟨b, tested⟩
  · obtain rfl : news = [] :=
      Json.arr.inj (Except.ok.inj (new_eq.symm.trans (old_there null)))
    refine ⟨false, ?_⟩
    rw [test, judge_reaction w typed passes null new_eq]
    rfl

theorem reaction_strays (w : WantedReactions) (typed : TypedUpdate c.update)
    (passes : c.passes reactionFilter = true)
    (strays : (c.update.field "message_reaction").getOr "new_reaction" (.arr []) = .ok .null ∨
      (c.update.field "message_reaction").getOr "old_reaction" (.arr []) = .ok .null ∧
        (c.update.field "message_reaction").getOr "new_reaction" (.arr []) ≠ .ok (.arr [])) :
    ∃ what, (Condition.reaction reactionFilter w).test c = .error (.mismatch what) := by
  have change := isObject_reaction_of_passes typed passes
  by_cases null : (c.update.field "message_reaction").getOr "new_reaction" (.arr []) = .ok .null
  · obtain ⟨old, old_eq⟩ : ∃ old,
        (c.update.field "message_reaction").getOr "old_reaction" (.arr []) = .ok old := by
      rcases reaction_cases typed "old_reaction" (by simp) change with ⟨olds, h, -⟩ | h
      exacts [⟨_, h⟩, ⟨_, h⟩]
    apply Exists.intro
    rw [test, judge_reaction w typed passes old_eq null]
    rfl
  · obtain ⟨old_null, not_empty⟩ := strays.resolve_left null
    obtain ⟨news, new_eq, news_typed⟩ :=
      (reaction_cases typed "new_reaction" (by simp) change).resolve_right null
    cases news with
    | nil => exact absurd new_eq not_empty
    | cons v news =>
      have object := (news_typed v List.mem_cons_self).isObject
      apply Exists.intro
      rw [test, judge_reaction w typed passes old_null new_eq]
      simp only [Json.items, WantedReactions.anyAdded, Json.get_eq_field object, bind, Except.bind]
      rfl

theorem chatType_answers (typed : TypedUpdate c.update) (types : List Json) :
    ∃ accepted, (Condition.chatType types).test c = .ok (accepted, c) := by
  obtain ⟨chat, chat_eq, chat_typed⟩ := typed.exists_chat
  by_cases absent : chat = .null
  · refine ⟨false, ?_⟩
    simp only [test, judge, chat_eq, absent, bind, Except.bind]
    rfl
  · obtain ⟨object, type_typed⟩ := chat_typed absent
    have key : (chat.field "type").asKey = .ok (chat.field "type") := by
      by_cases untyped : chat.field "type" = .null
      · rw [untyped]
        rfl
      · obtain ⟨s, type_eq⟩ := type_typed untyped
        rw [type_eq, Json.asKey_str]
    refine ⟨(chat.field "type").isIn types, ?_⟩
    simp only [test, judge, chat_eq, Json.isNull_eq_false_iff.mpr absent, Json.get_eq_field object,
      key, bind, Except.bind]
    cases (chat.field "type").isIn types <;> rfl

theorem field_grounded (triggers : List Trigger) (typed : TypedUpdate c.update)
    (passes : c.passes f.filter = true) :
    (Condition.field f.filter f.kind f.field triggers).test c = .ok (false, c) ∧
        (c.update.field f.kind).field f.field = .null ∨
      ∃ s, TakenFrom f.filter c f.kind [f.field] s ∧
        (Condition.field f.filter f.kind f.field triggers).test c =
          c.matchTriggers (.str s) triggers := by
  have known : f.kind ∈ Context.kinds := by cases f <;> decide
  have listed : (f.kind, f.field) ∈ textPlaces := by cases f <;> decide
  have part := typed.kinds f.kind known (TriggerField.present_of_passes passes)
  by_cases missing : (c.update.field f.kind).field f.field = .null
  · exact .inl ⟨test_field_of_null passes part typed.isObject missing, missing⟩
  · obtain ⟨s, text_eq⟩ := typed.texts _ listed missing
    refine .inr ⟨s, ⟨⟨f.field, by simp, text_eq⟩, passes_only_filter f passes⟩, ?_⟩
    rw [test_field passes part typed.isObject missing, text_eq]

end Condition

/-! ## All listeners -/

namespace Listener

open Condition

variable {c : Context} {l : Listener} {condition : Condition} {triggers : List Trigger}

/-- What a condition does on an update that its filter lets pass is all that there is to show. -/
theorem answers_of_passes {present : Filter.Predicate} {G : Prop}
    (guarded : condition.presence = some present)
    (answers : c.passes present = true →
      (∃ accepted c', condition.test c = .ok (accepted, c')) ∧ G) :
    (∃ accepted c', condition.test c = .ok (accepted, c')) ∧ (c.passes present = true → G) := by
  cases passes : c.passes present with
  | false =>
    exact ⟨⟨false, c, test_of_not_passes guarded passes⟩, fun passed => by cases passed⟩
  | true =>
    obtain ⟨answered, ground⟩ := answers passes
    exact ⟨answered, fun _ => ground⟩

theorem text_answers_or_strays (typed : TypedUpdate c.update)
    (textual : ∀ t ∈ triggers, t.Textual) :
    (¬ (Listener.text triggers).Strays c →
      (∃ accepted c', (Condition.text textFilter triggers).test c = .ok (accepted, c')) ∧
        (Listener.text triggers).Grounded c (.text textFilter triggers)) ∧
    ((Listener.text triggers).Strays c →
      (Listener.text triggers).Searches ∧
          (∃ what, (Condition.text textFilter triggers).test c = .error (.mismatch what)) ∨
        ¬ (Listener.text triggers).Searches ∧
          (Condition.text textFilter triggers).test c = .ok (false, c)) := by
  refine ⟨fun not_stray => answers_of_passes rfl fun passes => ?_, fun ⟨passes, missing⟩ => ?_⟩
  · obtain ⟨kind, of_post, s, taken, tested⟩ := text_grounded triggers typed passes
      fun missing => not_stray ⟨passes, missing⟩
    exact ⟨tested ▸ Trigger.exists_matchTriggers_str c s triggers, kind, of_post, s, taken, tested⟩
  · exact (text_strays typed textual passes missing).imp_right fun ⟨none_searches, tested⟩ =>
      ⟨fun ⟨r, mem⟩ => none_searches r mem, tested⟩

theorem command_answers_or_strays (names : List String) (typed : TypedUpdate c.update)
    (named : c.me.username.IsText) (argument : Json) :
    (¬ (Listener.command argument).Strays c →
      (∃ accepted c', (Condition.command commandFilter names).test c = .ok (accepted, c')) ∧
        (Listener.command argument).Grounded c (.command commandFilter names)) ∧
    ((Listener.command argument).Strays c →
      ∃ what, (Condition.command commandFilter names).test c = .error (.mismatch what)) := by
  obtain ⟨own, named⟩ := named
  refine ⟨fun not_stray => answers_of_passes rfl fun passes => ?_,
    fun ⟨passes, strays⟩ => command_strays typed passes strays⟩
  have grounded := command_grounded names typed named passes
    (fun null => not_stray ⟨passes, .inl null⟩)
    (fun has missing => not_stray ⟨passes, .inr ⟨missing, has⟩⟩)
  rcases grounded with ⟨tested, none_starts⟩ |
    ⟨kind, of_post, s, entities, taken, list_eq, ⟨found, searched⟩, tested⟩
  · exact ⟨⟨false, c, tested⟩, .inl ⟨tested, none_starts⟩⟩
  · refine ⟨⟨(sliced c found).1, (sliced c found).2, by rw [tested, searched]; rfl⟩, ?_⟩
    exact .inr ⟨kind, of_post, s, names, entities, taken, list_eq, rfl, tested⟩

/-- On a typed update the condition of a listener answers, on the ground of a text in a part that
passes its filter, unless it strays: then it fails, if it needs what is missing. -/
theorem answers_or_strays (typed : TypedUpdate c.update) (named : c.me.username.IsText)
    (textual : l.Textual) (built : l.condition = .ok condition) :
    (¬ l.Strays c →
      (∃ accepted c', condition.test c = .ok (accepted, c')) ∧ l.Grounded c condition) ∧
    (l.Strays c →
      l.Searches ∧ (∃ what, condition.test c = .error (.mismatch what)) ∨
      ¬ l.Searches ∧ condition.test c = .ok (false, c)) := by
  cases l with
  | filter query =>
    obtain ⟨present, -, built⟩ := exists_of_bind_eq_ok built
    cases built
    exact ⟨fun _ => ⟨⟨_, _, rfl⟩, trivial⟩, False.elim⟩
  | text triggers =>
    obtain ⟨present, compiled, built⟩ := exists_of_bind_eq_ok built
    cases compile_textFilter.symm.trans compiled
    cases built
    exact text_answers_or_strays typed textual
  | command argument =>
    obtain ⟨present, compiled, built⟩ := exists_of_bind_eq_ok built
    obtain ⟨names, -, built⟩ := exists_of_bind_eq_ok built
    cases compile_commandFilter.symm.trans compiled
    cases built
    have answers := command_answers_or_strays names typed named argument
    exact ⟨answers.1, fun strays => .inl ⟨trivial, answers.2 strays⟩⟩
  | reaction wanted =>
    obtain ⟨w, rfl⟩ := eq_reaction_of_ofReaction built
    refine ⟨fun not_stray => ⟨?_, trivial⟩,
      fun ⟨passes, strays⟩ => .inl ⟨trivial, reaction_strays w typed passes strays⟩⟩
    cases passes : c.passes reactionFilter with
    | false => exact ⟨false, c, test_of_not_passes rfl passes⟩
    | true =>
      obtain ⟨accepted, tested⟩ := reaction_answers w typed passes
        (fun null => not_stray ⟨passes, .inl null⟩)
        (fun null => by_contra fun added => not_stray ⟨passes, .inr ⟨null, added⟩⟩)
      exact ⟨accepted, c, tested⟩
  | chatType types =>
    obtain ⟨kinds, -, built⟩ := exists_of_bind_eq_ok built
    cases built
    obtain ⟨accepted, tested⟩ := chatType_answers typed kinds
    exact ⟨fun _ => ⟨⟨accepted, c, tested⟩, trivial⟩, False.elim⟩
  | field f triggers =>
    obtain ⟨present, compiled, built⟩ := exists_of_bind_eq_ok built
    cases f.compile_filter.symm.trans compiled
    cases built
    refine ⟨fun _ => answers_of_passes rfl fun passes => ?_, False.elim⟩
    have grounded := field_grounded triggers typed passes
    refine ⟨?_, grounded⟩
    rcases grounded with ⟨tested, -⟩ | ⟨s, -, tested⟩
    · exact ⟨false, c, tested⟩
    · exact tested ▸ Trigger.exists_matchTriggers_str c s triggers

/-- An update with a message and a channel post, each of which may be null. -/
def twoPosts (message post : Json) : Context :=
  { update := .obj [("message", message), ("channel_post", post)]
    me := { id := .int 42, username := .str "bot" } }

/-- A message or post with nothing but texts, if it is not null. -/
structure PlainPost (v : Json) : Prop where
  isObject : v.Optionally Json.IsObject
  texts : ∀ key ∈ contentFields, (v.field key).Optionally Json.IsText
  entities : v.field "entities" = .null
  chat : v.field "chat" = .null

theorem typed_twoPosts {message post : Json} (hm : PlainPost message) (hp : PlainPost post) :
    TypedUpdate (twoPosts message post).update := by
  have field_eq (kind : String) : (twoPosts message post).update.field kind =
      if "message" = kind then message else if "channel_post" = kind then post else .null := by
    by_cases message : "message" = kind
    · simp [twoPosts, Json.field, Named.find?, message]
    · by_cases post : "channel_post" = kind <;>
        simp [twoPosts, Json.field, Named.find?, message, post]
  have of_null {p : Json → Prop} : Json.null.Optionally p := fun there => absurd rfl there
  have of_part {p : Json → Prop} (kind key : String) (of_message : (message.field key).Optionally p)
      (of_post : (post.field key).Optionally p) :
      (((twoPosts message post).update.field kind).field key).Optionally p := by
    rw [field_eq]
    split
    · exact of_message
    · split
      exacts [of_post, of_null]
  refine ⟨⟨_, rfl⟩, fun kind _ => ?_, ?_, fun kind _ => ?_, fun list _ => ?_, fun kind _ => ?_,
    ?_, ?_⟩
  · rw [field_eq]
    split
    · exact hm.isObject
    · split
      exacts [hp.isObject, of_null]
  · intro place listed
    have cases_of_listed : place.1 ∈ postKinds ∧ place.2 ∈ contentFields ∨
        place.1 ≠ "message" ∧ place.1 ≠ "channel_post" := by
      revert place
      decide
    rcases cases_of_listed with ⟨-, content⟩ | ⟨not_message, not_post⟩
    · exact of_part _ _ (hm.texts _ content) (hp.texts _ content)
    · rw [field_eq, if_neg not_message.symm, if_neg not_post.symm]
      exact of_null
  · exact of_part kind "entities" (hm.entities ▸ of_null) (hp.entities ▸ of_null)
  · rw [field_eq]
    exact of_null
  · exact of_part kind "chat" (hm.chat ▸ of_null) (hp.chat ▸ of_null)
  · rw [field_eq]
    exact of_null
  · rw [field_eq]
    exact of_null

/-- The trigger for a letter. -/
def letter (c : Char) : Trigger := .pattern { pattern := .char c, flags := {}, groups := 0 }

theorem condition_text (triggers : List Trigger) :
    (Listener.text triggers).condition = .ok (.text textFilter triggers) := by
  rw [Listener.condition, ofText, compile_textFilter]
  rfl

theorem plainPost_null : PlainPost .null :=
  ⟨(absurd rfl ·), fun _ _ => (absurd rfl ·), rfl, rfl⟩

theorem plainPost_text (s : String) : PlainPost (.obj [("text", .str s)]) := by
  refine ⟨fun _ => ⟨_, rfl⟩, fun key content => ?_, rfl, rfl⟩
  have keys : key = "text" ∨ key = "caption" := by simpa [contentFields] using content
  rcases keys with rfl | rfl
  exacts [fun _ => ⟨s, rfl⟩, (absurd rfl ·)]

theorem plainPost_number (n : Int) : PlainPost (.obj [("message_id", .int n)]) := by
  refine ⟨fun _ => ⟨_, rfl⟩, fun key content => ?_, rfl, rfl⟩
  have keys : key = "text" ∨ key = "caption" := by simpa [contentFields] using content
  rcases keys with rfl | rfl <;> exact (absurd rfl ·)

/-- A message with a text is searched. -/
theorem answers_or_strays_of_text :
    (∃ accepted c', (Condition.text textFilter [letter 'h']).test
        (twoPosts (.obj [("text", .str "hi")]) .null) = .ok (accepted, c')) ∧
      (Listener.text [letter 'h']).Grounded (twoPosts (.obj [("text", .str "hi")]) .null)
        (.text textFilter [letter 'h']) :=
  (answers_or_strays (typed_twoPosts (plainPost_text "hi") plainPost_null) ⟨"bot", rfl⟩
    (by simp [Textual, letter, Trigger.Textual]) (condition_text [letter 'h'])).1
      fun strays => by simpa using (show Json.str "hi" = .null from strays.2)

/-- A message without content hides the text of the channel post that passed the filter: the
condition fails on a typed update. -/
theorem missing_content_is_searched :
    TypedUpdate (twoPosts (.obj [("message_id", .int 1)]) (.obj [("text", .str "hi")])).update ∧
      (Listener.text [letter 'h']).condition = .ok (.text textFilter [letter 'h']) ∧
      ¬ ∃ accepted c', (Condition.text textFilter [letter 'h']).test
        (twoPosts (.obj [("message_id", .int 1)]) (.obj [("text", .str "hi")])) =
          .ok (accepted, c') := by
  refine ⟨typed_twoPosts (plainPost_number 1) (plainPost_text "hi"), condition_text _, ?_⟩
  rintro ⟨accepted, c', tested⟩
  have failed : (Condition.text textFilter [letter 'h']).test
      (twoPosts (.obj [("message_id", .int 1)]) (.obj [("text", .str "hi")])) =
        .error (.mismatch "expected string or bytes-like object, got 'NoneType'") := rfl
  rw [failed] at tested
  cases tested

end Listener
end UpdateDispatch
