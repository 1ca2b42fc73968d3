import UpdateDispatch.Named

/-!
# Known update shapes

The schema of updates as the filters know it: each update kind with its fields, each field with
the tags that may stand below it. A path of one, two or three names through the schema is what a
concrete query names. Tokens such as `msg` or `media` stand for several names.
-/

namespace UpdateDispatch.Filter

/-- The tags that each field may have below it. -/
abbrev Fields := List (String × List String)

/-- The fields that each update kind may have. -/
abbrev Schema := List (String × Fields)

/-- Fields without tags below them. -/
def plain (names : List String) : Fields := names.map (·, [])

/-- The kinds of entities in a text. -/
def entityTags : List String :=
  ["mention", "hashtag", "cashtag", "bot_command", "url", "email", "phone_number", "bold", "italic",
    "underline", "strikethrough", "spoiler", "blockquote", "expandable_blockquote", "code", "pre",
    "text_link", "text_mention", "custom_emoji"]

/-- The properties of a user. -/
def userTags : List String := ["me", "is_bot", "is_premium", "added_to_attachment_menu"]

/-- The origins of a forwarded message. -/
def originTags : List String := ["user", "hidden_user", "chat", "channel"]

/-- The properties of a sticker. -/
def stickerTags : List String := ["is_video", "is_animated", "premium_animation"]

/-- The kinds of reactions. -/
def reactionTags : List String := ["emoji", "custom_emoji"]

/-- The fields that messages and channel posts share. -/
def commonFields : Fields :=
  plain ["is_topic_message", "is_automatic_forward", "business_connection_id", "text", "animation",
    "audio", "document", "photo", "story", "video", "video_note", "voice", "contact", "dice",
    "game", "poll", "venue", "location", "paid_media", "caption", "effect_id", "has_media_spoiler",
    "new_chat_title", "new_chat_photo", "delete_chat_photo", "message_auto_delete_timer_changed",
    "pinned_message", "chat_background_set", "invoice", "proximity_alert_triggered",
    "video_chat_scheduled", "video_chat_started", "video_chat_ended",
    "video_chat_participants_invited", "web_app_data"] ++
  [("forward_origin", originTags), ("sticker", stickerTags), ("entities", entityTags),
    ("caption_entities", entityTags)]

/-- The fields of a message. -/
def messageFields : Fields :=
  commonFields ++ plain ["sender_boost_count"] ++
  [("new_chat_members", userTags), ("left_chat_member", userTags)] ++
  plain ["group_chat_created", "supergroup_chat_created", "migrate_to_chat_id",
    "migrate_from_chat_id", "successful_payment", "refunded_payment", "boost_added",
    "users_shared", "chat_shared", "connected_website", "write_access_allowed", "passport_data",
    "forum_topic_created"] ++
  [("forum_topic_edited", ["name", "icon_custom_emoji_id"])] ++
  plain ["forum_topic_closed", "forum_topic_reopened", "general_forum_topic_hidden",
    "general_forum_topic_unhidden"]

/-- The fields of a channel post. -/
def postFields : Fields := commonFields ++ plain ["channel_chat_created"]

/-- The fields of a change of membership. -/
def memberFields : Fields := [("from", userTags)]

/-- All update kinds. -/
def schema : Schema :=
  [("message", messageFields), ("edited_message", messageFields), ("channel_post", postFields),
    ("edited_channel_post", postFields),
    ("business_connection", plain ["can_reply", "is_enabled"]),
    ("business_message", messageFields), ("edited_business_message", messageFields),
    ("deleted_business_messages", []), ("inline_query", []), ("chosen_inline_result", []),
    ("callback_query", plain ["data", "game_short_name"]), ("shipping_query", []),
    ("pre_checkout_query", []), ("poll", []), ("poll_answer", []),
    ("my_chat_member", memberFields), ("chat_member", memberFields), ("chat_join_request", []),
    ("message_reaction", [("old_reaction", reactionTags), ("new_reaction", reactionTags)]),
    ("message_reaction_count", [("reactions", reactionTags)]), ("chat_boost", []),
    ("removed_chat_boost", [])]

/-- The names of all update kinds. -/
def kindNames : List String := schema.map Prod.fst

/-- The tokens that stand for several update kinds, with the kinds in order of evaluation. -/
def kindShortcuts : List (String × List String) :=
  [("", ["message", "channel_post"]), ("msg", ["message", "channel_post"]),
    ("edit", ["edited_message", "edited_channel_post"])]

/-- The tokens that stand for several fields, with the fields in order of evaluation. -/
def fieldShortcuts : List (String × List String) :=
  [("", ["entities", "caption_entities"]), ("media", ["photo", "video"]),
    ("file", ["photo", "animation", "audio", "document", "video", "video_note", "voice",
      "sticker"])]

/-- The update kinds that are delivered when no list of kinds is asked for. -/
def defaultKinds : List String :=
  ["message", "edited_message", "channel_post", "edited_channel_post", "business_connection",
    "business_message", "edited_business_message", "deleted_business_messages", "inline_query",
    "chosen_inline_result", "callback_query", "shipping_query", "pre_checkout_query", "poll",
    "poll_answer", "my_chat_member", "chat_join_request", "chat_boost", "removed_chat_boost"]

/-- The fields of a kind; none for an unknown one. -/
def fieldsOf (kind : String) : Fields := (Named.find? kind schema).getD []

/-- The tags below a field of a kind; none for unknown ones. -/
def tagsOf (kind field : String) : List String := (Named.find? field (fieldsOf kind)).getD []

/-- Whether a kind has a field. -/
def hasField (kind field : String) : Bool := (Named.find? field (fieldsOf kind)).isSome

end UpdateDispatch.Filter
