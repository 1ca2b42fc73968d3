import UpdateDispatch.Proofs.Condition.Presence
import UpdateDispatch.Proofs.Condition.Reactions

/-!
# Typed updates

An update is typed if its parts have the types of the platform wherever they are there: any of them
may be missing, and any of them may be null. The message that a condition picks from a typed update
is an object, its content is a text, and its chat can be looked up.
-/

namespace UpdateDispatch

/-! ## Types -/

namespace Json

/-- Whether a value has a property unless it is missing or null. -/
def Optionally (p : Json → Prop) (v : Json) : Prop := v ≠ .null → p v

/-- A text. -/
def IsText (v : Json) : Prop := ∃ s, v = .str s

/-- A list of values with a property. -/
def IsListOf (p : Json → Prop) (v : Json) : Prop := ∃ items, v = .arr items ∧ ∀ item ∈ items, p item

/-- A special part of a text, with its type and its place. -/
structure IsEntity (v : Json) : Prop where
  type : (v.field "type").IsText
  offset : ∃ n, v.field "offset" = .int n
  length : ∃ n, v.field "length" = .int n

theorem IsEntity.isObject {v : Json} (h : v.IsEntity) : v.IsObject := by
  obtain ⟨kind, type_eq⟩ := h.type
  have there : v.field "type" ≠ .null := by simp [type_eq]
  exact isObject_of_field there

/-- A chat with its type. -/
structure IsChat (v : Json) : Prop where
  isObject : v.IsObject
  type : (v.field "type").Optionally IsText

/-- A list of a typed part is there, with its items, unless it is explicitly null. -/
theorem getOr_list_cases {v : Json} {p : Json → Prop} {key : String} (object : v.IsObject)
    (typed : (v.field key).Optionally (IsListOf p)) :
    (∃ items, v.getOr key (.arr []) = .ok (.arr items) ∧ ∀ item ∈ items, p item) ∨
      v.getOr key (.arr []) = .ok .null := by
  by_cases there : v.field key = .null
  · rcases getOr_cases object key (.arr []) with null | ⟨-, missing⟩
    · exact .inr (by rw [null, there])
    · exact .inl ⟨[], missing, by simp⟩
  · obtain ⟨items, list_eq, typed⟩ := typed there
    exact .inl ⟨items, by rw [getOr_eq_field there, list_eq], typed⟩

end Json

/-- The fields for texts that conditions look at, by update kind. -/
def textPlaces : List (String × String) :=
  [("message", "text"), ("message", "caption"), ("channel_post", "text"),
    ("channel_post", "caption"), ("callback_query", "data"),
    ("callback_query", "game_short_name"), ("inline_query", "query"),
    ("chosen_inline_result", "result_id"), ("pre_checkout_query", "invoice_payload"),
    ("shipping_query", "invoice_payload")]

/-- An update whose parts have the types of the platform wherever they are there. -/
structure TypedUpdate (u : Json) : Prop where
  isObject : u.IsObject
  kinds : ∀ kind ∈ Context.kinds, (u.field kind).Optionally Json.IsObject
  texts : ∀ place ∈ textPlaces, ((u.field place.1).field place.2).Optionally Json.IsText
  entities : ∀ kind ∈ postKinds,
    ((u.field kind).field "entities").Optionally (Json.IsListOf Json.IsEntity)
  reactions : ∀ list ∈ ["old_reaction", "new_reaction"],
    ((u.field "message_reaction").field list).Optionally (Json.IsListOf Json.IsReaction)
  chats : ∀ kind ∈ Context.kinds, ((u.field kind).field "chat").Optionally Json.IsChat
  inCallback : ((u.field "callback_query").field "message").Optionally Json.IsObject
  callbackChat : (((u.field "callback_query").field "message").field "chat").Optionally Json.IsChat

/-! ## What is picked -/

open Condition in
theorem TypedUpdate.isObject_postOf {u : Json} (typed : TypedUpdate u) (there : postOf u ≠ .null) :
    (postOf u).IsObject := by
  obtain ⟨kind, of_post, post_eq⟩ := exists_postOf_eq u
  have known : kind ∈ Context.kinds := by
    rcases mem_postKinds_iff.mp of_post with rfl | rfl <;> simp [Context.kinds]
  rw [post_eq] at there ⊢
  exact typed.kinds kind known there

open Condition in
theorem TypedUpdate.isText_contentOf {u : Json} {kind : String} (typed : TypedUpdate u)
    (of_post : kind ∈ postKinds) (there : contentOf (u.field kind) ≠ .null) :
    ∃ key ∈ contentFields, ∃ s, (u.field kind).field key = .str s ∧
      contentOf (u.field kind) = .str s := by
  obtain ⟨key, of_content, content_eq⟩ := exists_contentOf_eq (u.field kind)
  have listed : (kind, key) ∈ textPlaces := by
    have keys : key = "text" ∨ key = "caption" := by simpa [contentFields] using of_content
    rcases mem_postKinds_iff.mp of_post with rfl | rfl <;> rcases keys with rfl | rfl <;>
      simp [textPlaces]
  obtain ⟨s, text_eq⟩ := typed.texts _ listed (content_eq ▸ there)
  exact ⟨key, of_content, s, text_eq, content_eq.trans text_eq⟩

/-! ## Chats -/

/-- Whether a value is null or has a chat that is null or a chat. -/
def Json.MayHaveChat (v : Json) : Prop :=
  v.Optionally Json.IsObject ∧ (v.field "chat").Optionally Json.IsChat

theorem TypedUpdate.mayHaveChat {u : Json} (typed : TypedUpdate u) {kinds : List String}
    (known : ∀ kind ∈ kinds, kind ∈ Context.kinds) : ∀ v ∈ kinds.map u.field, v.MayHaveChat := by
  intro v mem
  obtain ⟨kind, listed, rfl⟩ := List.mem_map.mp mem
  exact ⟨typed.kinds kind (known kind listed), typed.chats kind (known kind listed)⟩

open Condition in
theorem TypedUpdate.exists_msg {c : Context} (typed : TypedUpdate c.update) :
    ∃ msg, c.msg = .ok msg ∧ msg.MayHaveChat := by
  have callback := typed.kinds "callback_query" (by simp [Context.kinds])
  refine ⟨Json.firstPresent (["message", "edited_message", "channel_post", "edited_channel_post",
    "business_message", "edited_business_message"].map c.update.field ++
      [(c.update.field "callback_query").field "message"]), ?_,
    Json.firstPresent_of_forall ⟨(absurd rfl ·), (absurd rfl ·)⟩ fun v mem => ?_⟩
  · simp only [Context.msg, kind_eq typed.isObject, kindsOf_eq typed.isObject,
      Json.orEmpty_get callback, bind, Except.bind]
  · rcases List.mem_append.mp mem with mem | mem
    · exact typed.mayHaveChat (by decide) v mem
    · obtain rfl := List.mem_singleton.mp mem
      exact ⟨typed.inCallback, typed.callbackChat⟩

open Condition in
theorem TypedUpdate.exists_chat {c : Context} (typed : TypedUpdate c.update) :
    ∃ chat, c.chat = .ok chat ∧ chat.Optionally Json.IsChat := by
  obtain ⟨msg, msg_eq, may⟩ := typed.exists_msg
  have source_may : (Json.firstPresent (msg :: ["deleted_business_messages", "message_reaction",
      "message_reaction_count", "my_chat_member", "chat_member", "chat_join_request", "chat_boost",
      "removed_chat_boost"].map c.update.field)).MayHaveChat := by
    refine Json.firstPresent_of_forall ⟨(absurd rfl ·), (absurd rfl ·)⟩ fun v mem => ?_
    rcases List.mem_cons.mp mem with rfl | mem
    · exact may
    · exact typed.mayHaveChat (by decide) v mem
  generalize source_eq : Json.firstPresent _ = source at source_may
  by_cases absent : source = .null
  · refine ⟨.null, ?_, (absurd rfl ·)⟩
    simp only [Context.chat, msg_eq, kindsOf_eq typed.isObject, source_eq, absent, bind,
      Except.bind]
    rfl
  · refine ⟨source.field "chat", ?_, source_may.2⟩
    simp only [Context.chat, msg_eq, kindsOf_eq typed.isObject, source_eq,
      Json.isNull_eq_false_iff.mpr absent, Json.get_eq_field (source_may.1 absent), bind,
      Except.bind]
    rfl

end UpdateDispatch
