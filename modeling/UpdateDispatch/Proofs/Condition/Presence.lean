import UpdateDispatch.Condition
import UpdateDispatch.Proofs.Basic
import UpdateDispatch.Proofs.Filter.Merge
import UpdateDispatch.Proofs.Json.Reading

/-!
# What conditions look for and what they pick

The filters of the ready-made conditions, as they are compiled, with what each of them asks for and
with the parts of an update that pass it on their own (`only`); and the message and the content that
the conditions pick afterwards, whichever part it was that passed (`postOf`, `contentOf`). Where a
picked text comes from a part that passes is what `TakenFrom` says.
-/

namespace UpdateDispatch

/-- The update kinds of the messages whose texts conditions look at. -/
def postKinds : List String := ["message", "channel_post"]

/-- The fields that hold the content of a message. -/
def contentFields : List String := ["text", "caption"]

namespace Condition

variable {c : Context} {v : Json} {kind : String}

/-! ## What conditions pick -/

/-- The message or post that conditions pick from an update. -/
def postOf (u : Json) : Json := Json.firstPresent [u.field "message", u.field "channel_post"]

/-- The content that conditions pick from a message or post. -/
def contentOf (v : Json) : Json := Json.firstPresent [v.field "text", v.field "caption"]

theorem kind_eq (object : c.update.IsObject) (name : String) :
    c.kind name = .ok (c.update.field name) :=
  Json.get_eq_field object name

theorem kindsOf_eq (object : c.update.IsObject) (names : List String) :
    c.kindsOf names = .ok (names.map c.update.field) :=
  mapM_ok _ _ fun name _ => kind_eq object name

theorem post_eq (object : c.update.IsObject) : c.post = .ok (postOf c.update) := by
  simp only [Context.post, kindsOf_eq object, bind, Except.bind]
  rfl

theorem textOf_eq (object : v.IsObject) : Context.textOf v = .ok (contentOf v) := by
  simp only [Context.textOf, Json.get_eq_field object, bind, Except.bind]
  rfl

/-- The channel post is picked only if there is no message. -/
theorem postOf_cases (u : Json) :
    postOf u = u.field "message" ∧ u.field "message" ≠ .null ∨
      postOf u = u.field "channel_post" ∧ u.field "message" = .null := by
  by_cases absent : u.field "message" = .null
  · exact .inr ⟨by rw [postOf, absent, Json.firstPresent_null_pair], absent⟩
  · exact .inl ⟨Json.firstPresent_cons_of_ne_null absent, absent⟩

theorem contentOf_eq_null_iff :
    contentOf v = .null ↔ ∀ key ∈ contentFields, v.field key = .null := by
  simp [contentOf, contentFields, Json.firstPresent_eq_null_iff]

theorem ne_null_of_contentOf (there : contentOf v ≠ .null) : v ≠ .null := by
  rintro rfl
  exact there rfl

/-- The content is one of the fields for it. -/
theorem exists_contentOf_eq (v : Json) : ∃ key ∈ contentFields, contentOf v = v.field key := by
  by_cases absent : v.field "text" = .null
  · exact ⟨"caption", by simp [contentFields],
      by rw [contentOf, absent, Json.firstPresent_null_pair]⟩
  · exact ⟨"text", by simp [contentFields], Json.firstPresent_cons_of_ne_null absent⟩

theorem mem_postKinds_iff : kind ∈ postKinds ↔ kind = "message" ∨ kind = "channel_post" := by
  simp [postKinds]

theorem exists_postOf_eq (u : Json) : ∃ kind ∈ postKinds, postOf u = u.field kind := by
  rcases postOf_cases u with ⟨post_eq, -⟩ | ⟨post_eq, -⟩
  exacts [⟨_, by simp [postKinds], post_eq⟩, ⟨_, by simp [postKinds], post_eq⟩]

theorem postOf_ne_null {u : Json} (of_post : kind ∈ postKinds) (there : u.field kind ≠ .null) :
    postOf u ≠ .null := by
  intro missing
  rw [postOf, Json.firstPresent_eq_null_iff] at missing
  rcases mem_postKinds_iff.mp of_post with rfl | rfl <;> exact there (missing _ (by simp))

/-! ## What filters ask for -/

/-- The context of an update of which only one part is left. -/
def only (c : Context) (kind : String) : Context :=
  { c with update := .obj [(kind, c.update.field kind)] }

theorem only_me (c : Context) (kind : String) : (only c kind).me = c.me := rfl

theorem field_only (c : Context) (kind other : String) :
    (only c kind).update.field other = if kind = other then c.update.field kind else .null := by
  simp only [only, Json.field, Named.find?]
  split <;> simp_all

/-- The filter for messages and posts with a text or a caption. -/
def textFilter : Filter.Predicate :=
  ⟨[("message", [("text", []), ("caption", [])]),
    ("channel_post", [("text", []), ("caption", [])])]⟩

theorem compile_textFilter : Filter.compileQueries [":text", ":caption"] = .ok textFilter := by cbv

theorem passes_textFilter_iff :
    c.passes textFilter = true ↔ ∃ kind ∈ postKinds, contentOf (c.update.field kind) ≠ .null := by
  have node_iff (v : Json) :
      (v.truthy = true ∧ (v.field "text" ≠ .null ∨ v.field "caption" ≠ .null)) ↔
        contentOf v ≠ .null := by
    constructor
    · rintro ⟨-, present⟩ absent
      have absent := contentOf_eq_null_iff.mp absent
      exact present.elim (· (absent "text" (by simp [contentFields])))
        (· (absent "caption" (by simp [contentFields])))
    · intro present
      by_cases text : v.field "text" = .null
      · have caption : v.field "caption" ≠ .null := fun caption =>
          present (contentOf_eq_null_iff.mpr (by simp [contentFields, text, caption]))
        exact ⟨Json.truthy_of_field caption, .inr caption⟩
      · exact ⟨Json.truthy_of_field text, .inl text⟩
  simp [Context.passes, textFilter, Filter.Predicate.test, Filter.Tree.test, Filter.testKind,
    Filter.testField, postKinds, Json.isNull_eq_false_iff, node_iff]

/-- The filter for messages and posts with a command. -/
def commandFilter : Filter.Predicate :=
  ⟨[("message", [("entities", ["bot_command"])]),
    ("channel_post", [("entities", ["bot_command"])])]⟩

theorem compile_commandFilter :
    Filter.compileQueries [":entities:bot_command"] = .ok commandFilter := by cbv

theorem passes_commandFilter_iff : c.passes commandFilter = true ↔
    ∃ kind ∈ postKinds, Filter.Satisfies c.update c.me.id [kind, "entities", "bot_command"] := by
  simp [Context.passes, commandFilter, Filter.Predicate.test, Filter.Tree.test, Filter.testKind,
    Filter.testField, postKinds, Filter.Satisfies, Filter.anyHasTag_iff]

theorem passes_only_textFilter (of_post : kind ∈ postKinds)
    (present : contentOf (c.update.field kind) ≠ .null) :
    (only c kind).passes textFilter = true := by
  rw [passes_textFilter_iff]
  exact ⟨kind, of_post, by rwa [field_only, if_pos rfl]⟩

theorem passes_only_commandFilter (of_post : kind ∈ postKinds)
    (satisfies : Filter.Satisfies c.update c.me.id [kind, "entities", "bot_command"]) :
    (only c kind).passes commandFilter = true := by
  rw [passes_commandFilter_iff]
  refine ⟨kind, of_post, ?_⟩
  simpa only [Filter.Satisfies, field_only, only_me, if_pos] using satisfies

end Condition

/-- The filter for the field of a query. -/
def TriggerField.filter (f : TriggerField) : Filter.Predicate :=
  match f with
  | .callbackData | .game => ⟨[(f.kind, [(f.field, [])])]⟩
  | .inlineQuery | .chosenResult | .preCheckout | .shipping => ⟨[(f.kind, [])]⟩

theorem TriggerField.compile_filter (f : TriggerField) :
    Filter.compileQueries [f.query] = .ok f.filter := by
  cases f <;> cbv

theorem TriggerField.present_of_passes {c : Context} {f : TriggerField}
    (passes : c.passes f.filter = true) : c.update.field f.kind ≠ .null := by
  cases f <;>
    simp only [Context.passes, TriggerField.filter, Filter.Predicate.test, Filter.Tree.test,
      Filter.testKind, Filter.testField, List.any_cons, List.any_nil, List.isEmpty_cons,
      List.isEmpty_nil, Bool.or_false, Bool.and_eq_true, Bool.not_eq_true', if_true,
      Bool.false_eq_true, if_false, Json.isNull_eq_false_iff] at passes
  case callbackData | game => exact Json.ne_null_of_truthy passes.1
  all_goals exact passes

namespace Condition

variable {c : Context} {kind name : String} {triggers : List Trigger} {present : Filter.Predicate}

/-- The filter for a field looks at one part of an update. -/
theorem passes_only_filter (f : TriggerField) (passes : c.passes f.filter = true) :
    (only c f.kind).passes f.filter = true := by
  have same : (only c f.kind).update.field f.kind = c.update.field f.kind := by
    rw [field_only, if_pos rfl]
  rw [← passes]
  cases f <;>
    simp only [Context.passes, TriggerField.filter, Filter.Predicate.test, Filter.Tree.test,
      Filter.testKind, List.any_cons, List.any_nil, same, only_me]

/-- The filter of a condition, if it has one. -/
def presence : Condition → Option Filter.Predicate
  | .filter present | .text present _ | .command present _ | .reaction present _
  | .field present _ _ _ => some present
  | .chatType _ => none

/-- What does not pass the filter of a condition is refused. -/
theorem test_of_not_passes {condition : Condition} (guarded : condition.presence = some present)
    (stopped : c.passes present = false) : condition.test c = .ok (false, c) := by
  cases condition with
  | chatType types => cases guarded
  | filter | text | command | reaction | field =>
    cases guarded
    simp only [test, judge, stopped, bind, Except.bind]
    rfl

/-! ## Contents and triggers -/

theorem test_text (passes : c.passes present = true) (post : (postOf c.update).IsObject)
    (object : c.update.IsObject) :
    (Condition.text present triggers).test c =
      c.matchTriggers (contentOf (postOf c.update)) triggers := by
  simp only [test, judge, passes, post_eq object, textOf_eq post, Context.matchTriggers, bind,
    Except.bind]
  rcases Trigger.firstMatch (contentOf (postOf c.update)) triggers with fault | _ | m <;> rfl

theorem test_field (passes : c.passes present = true) (part : (c.update.field kind).IsObject)
    (object : c.update.IsObject) (there : (c.update.field kind).field name ≠ .null) :
    (Condition.field present kind name triggers).test c =
      c.matchTriggers ((c.update.field kind).field name) triggers := by
  simp only [test, judge, passes, kind_eq object, Json.get_eq_field part,
    Json.isNull_eq_false_iff.mpr there, Context.matchTriggers, bind, Except.bind]
  rcases Trigger.firstMatch ((c.update.field kind).field name) triggers with fault | _ | m <;> rfl

theorem test_field_of_null (passes : c.passes present = true)
    (part : (c.update.field kind).IsObject) (object : c.update.IsObject)
    (missing : (c.update.field kind).field name = .null) :
    (Condition.field present kind name triggers).test c = .ok (false, c) := by
  simp only [test, judge, passes, kind_eq object, Json.get_eq_field part, missing, bind,
    Except.bind]
  rfl

/-- A text that a condition takes from one of some fields of a part of an update, where the part
passes the filter of the condition on its own. -/
def TakenFrom (present : Filter.Predicate) (c : Context) (kind : String) (fields : List String)
    (s : String) : Prop :=
  (∃ key ∈ fields, (c.update.field kind).field key = .str s) ∧ (only c kind).passes present = true

end Condition
end UpdateDispatch
