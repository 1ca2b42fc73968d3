import Mathlib
import UpdateDispatch.Condition
import UpdateDispatch.Proofs.Basic
import UpdateDispatch.Proofs.Json.Reading

/-!
# Added reactions

A condition on reactions is built from wanted ones and compares two lists of an update. Over values
that are reactions, everything it does comes down to which reactions they write: a reaction of a
known kind is accepted if it is wanted and no old value writes it.

A reaction of another kind writes none. It equals no old reaction and it is not looked up among the
wanted ones: as soon as there is one among the new reactions, the condition accepts
(`test_reaction_iff`).
-/

namespace UpdateDispatch

/-! ## Reactions and how they are written -/

/-- A reaction of a known kind. -/
inductive Reaction where
  | emoji (s : String)
  | custom (id : String)
  | paid
  deriving DecidableEq, Repr

/-- Whether a value is how a reaction is written in an update. -/
def Reaction.WrittenAs : Reaction → Json → Prop
  | .emoji s, v => v.field "type" = .str "emoji" ∧ v.field "emoji" = .str s
  | .custom id, v => v.field "type" = .str "custom_emoji" ∧ v.field "custom_emoji_id" = .str id
  | .paid, v => v.field "type" = .str "paid"

/-- Whether a value is of none of the known kinds of reactions. -/
def Json.OfOtherKind (v : Json) : Prop :=
  ∀ kind ∈ ["emoji", "custom_emoji", "paid"], v.field "type" ≠ .str kind

/-- A reaction as it stands in an update: an object that has what its kind needs. -/
structure Json.IsReaction (v : Json) : Prop where
  isObject : v.IsObject
  emoji : v.field "type" = .str "emoji" → ∃ s, v.field "emoji" = .str s
  custom : v.field "type" = .str "custom_emoji" → ∃ id, v.field "custom_emoji_id" = .str id

theorem Json.OfOtherKind.type_differs {v : Json} (other : v.OfOtherKind) {kind : String}
    (known : kind ∈ ["emoji", "custom_emoji", "paid"]) :
    (v.field "type").same (.str kind) = false := by
  rw [← Bool.not_eq_true, Json.same_iff_eq_str]
  exact other kind known

namespace Reaction

variable {r r' : Reaction} {v old new : Json} {olds news : List Json}

theorem writtenAs_or_other (h : v.IsReaction) :
    (∃ r : Reaction, r.WrittenAs v) ∨ v.OfOtherKind := by
  by_cases emoji : v.field "type" = .str "emoji"
  · obtain ⟨s, emoji_eq⟩ := h.emoji emoji
    exact .inl ⟨.emoji s, emoji, emoji_eq⟩
  by_cases custom : v.field "type" = .str "custom_emoji"
  · obtain ⟨id, custom_eq⟩ := h.custom custom
    exact .inl ⟨.custom id, custom, custom_eq⟩
  by_cases paid : v.field "type" = .str "paid"
  · exact .inl ⟨.paid, paid⟩
  · exact .inr (by simp [Json.OfOtherKind, emoji, custom, paid])

theorem WrittenAs.not_other (written : r.WrittenAs v) : ¬ v.OfOtherKind := by
  intro other
  cases r with
  | emoji s => exact other "emoji" (by simp) written.1
  | custom id => exact other "custom_emoji" (by simp) written.1
  | paid => exact other "paid" (by simp) written

theorem WrittenAs.isReaction (written : r.WrittenAs v) : v.IsReaction := by
  have object {kind : String} (type_eq : v.field "type" = .str kind) : v.IsObject :=
    Json.isObject_of_field (v := v) (by rw [type_eq]; exact Json.noConfusion)
  cases r with
  | emoji s =>
    obtain ⟨type_eq, emoji_eq⟩ := written
    exact ⟨object type_eq, fun _ => ⟨s, emoji_eq⟩, by simp [type_eq]⟩
  | custom id =>
    obtain ⟨type_eq, custom_eq⟩ := written
    exact ⟨object type_eq, by simp [type_eq], fun _ => ⟨id, custom_eq⟩⟩
  | paid =>
    have type_eq : v.field "type" = .str "paid" := written
    exact ⟨object type_eq, by simp [type_eq], by simp [type_eq]⟩

theorem WrittenAs.unique (written : r.WrittenAs v) (written' : r'.WrittenAs v) : r = r' := by
  cases r <;> cases r' <;> simp_all [WrittenAs]

/-! ## Equal reactions -/

/-- Comparing two objects as reactions looks at nothing but their fields. -/
theorem sameReaction_eq (hold : old.IsObject) (hnew : new.IsObject) :
    sameReaction old new = .ok ((old.field "type").same (new.field "type") &&
      if (new.field "type").same (.str "emoji") then
        (old.field "emoji").same (new.field "emoji")
      else if (new.field "type").same (.str "custom_emoji") then
        (old.field "custom_emoji_id").same (new.field "custom_emoji_id")
      else (new.field "type").same (.str "paid")) := by
  simp only [sameReaction, Json.get_eq_field hold, Json.get_eq_field hnew, bind, Except.bind]
  cases (old.field "type").same (new.field "type") <;> simp [apply_ite Except.ok]

theorem sameReaction_of_writtenAs (hold : old.IsObject) (hnew : new.IsObject)
    (written : r.WrittenAs new) :
    ∃ b, sameReaction old new = .ok b ∧ (b = true ↔ r.WrittenAs old) := by
  refine ⟨_, sameReaction_eq hold hnew, ?_⟩
  cases r with
  | emoji s =>
    rw [written.1, written.2, Bool.and_eq_true, Json.same_iff_eq_str]
    simp [WrittenAs, Json.same, Json.same_iff_eq_str]
  | custom id =>
    rw [written.1, written.2, Bool.and_eq_true, Json.same_iff_eq_str]
    simp [WrittenAs, Json.same, Json.same_iff_eq_str]
  | paid =>
    have type_eq : new.field "type" = .str "paid" := written
    rw [type_eq, Bool.and_eq_true, Json.same_iff_eq_str]
    simp [WrittenAs, Json.same]

/-- A reaction of another kind is the same as none. -/
theorem sameReaction_of_other (hold : old.IsObject) (hnew : new.IsObject)
    (other : new.OfOtherKind) : sameReaction old new = .ok false := by
  simp [sameReaction_eq hold hnew, other.type_differs]

theorem amongReactions_of_writtenAs (holds : ∀ old ∈ olds, old.IsObject) (hnew : new.IsObject)
    (written : r.WrittenAs new) :
    ∃ b, amongReactions new olds = .ok b ∧ (b = true ↔ ∃ old ∈ olds, r.WrittenAs old) := by
  induction olds with
  | nil => exact ⟨false, rfl, by simp⟩
  | cons old olds ih =>
    rw [List.forall_mem_cons] at holds
    obtain ⟨b, same_eq, same_iff⟩ := sameReaction_of_writtenAs holds.1 hnew written
    obtain ⟨rest, rest_eq, rest_iff⟩ := ih holds.2
    refine ⟨b || rest, ?_, by simp [same_iff, rest_iff]⟩
    simp only [amongReactions, same_eq, rest_eq, bind, Except.bind]
    cases b <;> rfl

theorem amongReactions_of_other (holds : ∀ old ∈ olds, old.IsObject) (hnew : new.IsObject)
    (other : new.OfOtherKind) : amongReactions new olds = .ok false := by
  induction olds with
  | nil => rfl
  | cons old olds ih =>
    rw [List.forall_mem_cons] at holds
    simp [amongReactions, sameReaction_of_other holds.1 hnew other, ih holds.2, bind, Except.bind]

end Reaction

/-! ## Wanted reactions -/

namespace WantedReactions

variable {w : WantedReactions} {r : Reaction} {v : Json} {olds news : List Json}

/-- Whether a reaction is among the wanted ones. -/
def Wants (w : WantedReactions) : Reaction → Prop
  | .emoji s => .str s ∈ w.emoji
  | .custom id => .str id ∈ w.custom
  | .paid => w.paid = true

theorem has_of_writtenAs (object : v.IsObject) (written : r.WrittenAs v) :
    ∃ b, w.has v = .ok b ∧ (b = true ↔ w.Wants r) := by
  have get_eq := Json.get_eq_field object
  cases r with
  | emoji s =>
    refine ⟨(Json.str s).isIn w.emoji, ?_, Json.isIn_str_iff⟩
    simp [has, get_eq, written.1, written.2, bind, Except.bind, Json.same, Json.asKey_str]
  | custom id =>
    refine ⟨(Json.str id).isIn w.custom, ?_, Json.isIn_str_iff⟩
    simp [has, get_eq, written.1, written.2, bind, Except.bind, Json.same, Json.asKey_str]
  | paid =>
    have type_eq : v.field "type" = .str "paid" := written
    exact ⟨w.paid, by simp [has, get_eq, type_eq, bind, Except.bind, Json.same], Iff.rfl⟩

theorem has_of_other (object : v.IsObject) (other : v.OfOtherKind) : w.has v = .ok true := by
  simp [has, Json.get_eq_field object, other.type_differs, bind, Except.bind]

/-- Whether a new value makes the condition accept: it writes a wanted reaction that no old value
writes, or its kind is not a known one. -/
def Accepts (w : WantedReactions) (olds : List Json) (v : Json) : Prop :=
  (∃ r : Reaction, r.WrittenAs v ∧ w.Wants r ∧ ∀ old ∈ olds, ¬ r.WrittenAs old) ∨ v.OfOtherKind

/-- A new reaction is accepted if it is looked up and found. -/
theorem accepts_iff (holds : ∀ old ∈ olds, old.IsObject) (hv : v.IsReaction) :
    ∃ b c, amongReactions v olds = .ok b ∧ w.has v = .ok c ∧
      ((b = false ∧ c = true) ↔ w.Accepts olds v) := by
  rcases Reaction.writtenAs_or_other hv with ⟨r, written⟩ | other
  · obtain ⟨b, among_eq, among_iff⟩ :=
      Reaction.amongReactions_of_writtenAs holds hv.isObject written
    obtain ⟨c, has_eq, has_iff⟩ := has_of_writtenAs (w := w) hv.isObject written
    refine ⟨b, c, among_eq, has_eq, ?_⟩
    rw [← Bool.not_eq_true, among_iff, has_iff]
    constructor
    · rintro ⟨not_old, wants⟩
      exact .inl ⟨r, written, wants, fun old mem old_written => not_old ⟨old, mem, old_written⟩⟩
    · rintro (⟨r', written', wants, not_old⟩ | other)
      · obtain rfl := written.unique written'
        exact ⟨fun ⟨old, mem, old_written⟩ => not_old old mem old_written, wants⟩
      · exact absurd other written.not_other
  · refine ⟨false, true, Reaction.amongReactions_of_other holds hv.isObject other,
      has_of_other hv.isObject other, ?_⟩
    simp [Accepts, other]

theorem anyAdded_iff (w : WantedReactions) (holds : ∀ old ∈ olds, old.IsObject)
    (hnews : ∀ v ∈ news, v.IsReaction) :
    ∃ b, w.anyAdded (.arr olds) news = .ok b ∧ (b = true ↔ ∃ v ∈ news, w.Accepts olds v) := by
  induction news with
  | nil => exact ⟨false, rfl, by simp⟩
  | cons v news ih =>
    rw [List.forall_mem_cons] at hnews
    obtain ⟨rest, rest_eq, rest_iff⟩ := ih hnews.2
    obtain ⟨b, c, among_eq, has_eq, accepts_iff⟩ := accepts_iff (w := w) holds hnews.1
    refine ⟨(!b && c) || rest, ?_, by simp [← accepts_iff, rest_iff]⟩
    simp only [anyAdded, Json.get_eq_field hnews.1.isObject, Json.items, among_eq, has_eq, rest_eq,
      bind, Except.bind]
    cases b <;> cases c <;> rfl

end WantedReactions

/-! ## The condition -/

namespace Condition

variable {reaction : Json}

/-- Whether a value is how a wanted reaction is given: as a reaction, or as the text of an emoji. -/
def Wanted (r : Reaction) (v : Json) : Prop := r.WrittenAs (wantedReaction v)

theorem wantedOf_eq (wanted : List Json) {kind field : String}
    (there : ∀ v ∈ wanted, v.IsObject ∧
      (v.field "type" = .str kind → ∃ s, v.field field = .str s)) :
    ∃ found, wantedOf kind field wanted = .ok found ∧
      ∀ s, Json.str s ∈ found ↔
        ∃ v ∈ wanted, v.field "type" = .str kind ∧ v.field field = .str s := by
  refine ⟨(wanted.map fun v => if (v.field "type").same (.str kind) then [v.field field]
    else []).flatten, ?_, fun s => ?_⟩
  · unfold wantedOf
    rw [mapM_ok _ fun v => if (v.field "type").same (.str kind) then [v.field field] else []]
    · rfl
    · intro v mem
      obtain ⟨object, typed⟩ := there v mem
      rw [Json.get_eq_field object]
      by_cases of_kind : (v.field "type").same (.str kind)
      · obtain ⟨s, field_eq⟩ := typed (Json.same_iff_eq_str.mp of_kind)
        have there : v.field field ≠ .null := by simp [field_eq]
        have required := Json.require_eq_field there
        simp [of_kind, required, field_eq, Json.asKey_str, bind, Except.bind]
      · simp [of_kind, bind, Except.bind]
  · simp only [List.mem_flatten, List.mem_map, exists_exists_and_eq_and]
    refine exists_congr fun v => and_congr_right fun _ => ?_
    rw [← Json.same_iff_eq_str]
    split
    · next of_kind => simp [of_kind, eq_comm]
    · next of_kind => simp [of_kind]

/-- The filter that an update has to pass: there is a change of reactions. -/
def reactionFilter : Filter.Predicate := ⟨[("message_reaction", [])]⟩

theorem compile_reactionFilter :
    Filter.compileQueries ["message_reaction"] = .ok reactionFilter := by cbv

/-- A reaction or a list of them is taken as the list of its items. -/
theorem ofReaction_eq (wanted : ∀ v ∈ reaction.listed, ∃ r, Wanted r v) :
    ofReaction reaction = (do
      let all := reaction.listed.map wantedReaction
      let emoji ← wantedOf "emoji" "emoji" all
      let custom ← wantedOf "custom_emoji" "custom_emoji_id" all
      let paid := all.any fun r => (r.field "type").same (.str "paid")
      .ok (.reaction reactionFilter { emoji, custom, paid })) := by
  unfold ofReaction
  rw [compile_reactionFilter]
  have not_plain (plain : reaction.listed = [reaction])
      (no_object : ∀ fields, wantedReaction reaction ≠ .obj fields) : False := by
    obtain ⟨r, wanted⟩ := wanted reaction (by simp [plain])
    obtain ⟨fields, object⟩ := wanted.isReaction.isObject
    exact no_object fields object
  cases reaction with
  | str | obj | arr => rfl
  | null | bool | int | float => exact (not_plain rfl (by simp [wantedReaction])).elim

/-- The condition for wanted reactions looks for exactly these. -/
theorem exists_ofReaction (wanted : ∀ v ∈ reaction.listed, ∃ r, Wanted r v) :
    ∃ w, ofReaction reaction = .ok (.reaction reactionFilter w) ∧
      ∀ r, w.Wants r ↔ ∃ v ∈ reaction.listed, Wanted r v := by
  have reactions : ∀ v ∈ reaction.listed.map wantedReaction, v.IsReaction := by
    intro v mem
    obtain ⟨x, listed, rfl⟩ := List.mem_map.mp mem
    obtain ⟨r, wanted⟩ := wanted x listed
    exact wanted.isReaction
  obtain ⟨emoji, emoji_eq, emoji_iff⟩ := wantedOf_eq (reaction.listed.map wantedReaction)
    fun v mem => ⟨(reactions v mem).isObject, (reactions v mem).emoji⟩
  obtain ⟨custom, custom_eq, custom_iff⟩ := wantedOf_eq (reaction.listed.map wantedReaction)
    fun v mem => ⟨(reactions v mem).isObject, (reactions v mem).custom⟩
  refine ⟨_, by rw [ofReaction_eq wanted]; simp only [emoji_eq, custom_eq]; rfl, fun r => ?_⟩
  cases r with
  | emoji s => simp [WantedReactions.Wants, emoji_iff, Wanted, Reaction.WrittenAs]
  | custom id => simp [WantedReactions.Wants, custom_iff, Wanted, Reaction.WrittenAs]
  | paid => simp [WantedReactions.Wants, Json.same_iff_eq_str, Wanted, Reaction.WrittenAs]

/-- Whatever is wanted, the condition has the filter for changes of reactions. -/
theorem eq_reaction_of_ofReaction {condition : Condition}
    (built : ofReaction reaction = .ok condition) :
    ∃ w, condition = .reaction reactionFilter w := by
  obtain ⟨present, compiled, built⟩ := exists_of_bind_eq_ok built
  cases compile_reactionFilter.symm.trans compiled
  have finish (all : List Json) (built : (do
      let emoji ← wantedOf "emoji" "emoji" (all.map wantedReaction)
      let custom ← wantedOf "custom_emoji" "custom_emoji_id" (all.map wantedReaction)
      let paid := (all.map wantedReaction).any fun r => (r.field "type").same (.str "paid")
      .ok (Condition.reaction reactionFilter { emoji, custom, paid })) = .ok condition) :
      ∃ w, condition = .reaction reactionFilter w := by
    obtain ⟨emoji, -, built⟩ := exists_of_bind_eq_ok built
    obtain ⟨custom, -, built⟩ := exists_of_bind_eq_ok built
    exact ⟨_, (Except.ok.inj built).symm⟩
  cases reaction with
  | str s => exact finish [.str s] built
  | obj fields => exact finish [.obj fields] built
  | arr vs => exact finish vs built
  | null | bool | int | float => cases built

/-- Whether an update changes the reactions to a message, with lists of reactions before and after
the change. A list may be missing if it is empty. -/
structure Reacts (update : Json) (olds news : List Json) : Prop where
  isObject : (update.field "message_reaction").IsObject
  old_eq : (update.field "message_reaction").getOr "old_reaction" (.arr []) = .ok (.arr olds)
  new_eq : (update.field "message_reaction").getOr "new_reaction" (.arr []) = .ok (.arr news)
  olds : ∀ old ∈ olds, old.IsReaction
  news : ∀ v ∈ news, v.IsReaction

theorem passes_reactionFilter (c : Context) :
    c.passes reactionFilter = !(c.update.field "message_reaction").isNull := by
  simp [Context.passes, reactionFilter, Filter.Predicate.test, Filter.Tree.test, Filter.testKind]

theorem test_reaction_eq (w : WantedReactions) {c : Context} {olds news : List Json}
    (reacts : Reacts c.update olds news) :
    ∃ b, (Condition.reaction reactionFilter w).test c = .ok (b, c) ∧
      (b = true ↔ ∃ v ∈ news, w.Accepts olds v) := by
  obtain ⟨b, added_eq, added_iff⟩ :=
    w.anyAdded_iff (fun old mem => (reacts.olds old mem).isObject) reacts.news
  refine ⟨b, ?_, added_iff⟩
  have present := reacts.isObject.ne_null
  have passes : c.passes reactionFilter = true := by
    rw [passes_reactionFilter, Bool.not_eq_true']
    exact Json.isNull_eq_false_iff.mpr present
  have kind_eq : c.kind "message_reaction" = .ok (c.update.field "message_reaction") :=
    Json.get_eq_field (Json.isObject_of_field present) _
  simp only [test, judge, passes, kind_eq, reacts.old_eq, reacts.new_eq, Json.items, added_eq, bind,
    Except.bind]
  cases b <;> rfl

/-- Whether one of the wanted reactions stands among the new ones and not among the old ones. -/
def WantedAdded (reaction : Json) (olds news : List Json) : Prop :=
  ∃ r, (∃ x ∈ reaction.listed, Wanted r x) ∧ (∃ v ∈ news, r.WrittenAs v) ∧
    ∀ old ∈ olds, ¬ r.WrittenAs old

/-- The condition for wanted reactions accepts exactly if a wanted one was added, or else if there
is any reaction of another kind among the new ones. -/
theorem test_ofReaction_iff {reaction : Json} (wanted : ∀ x ∈ reaction.listed, ∃ r, Wanted r x) :
    ∃ condition, ofReaction reaction = .ok condition ∧
      ∀ (c : Context) (olds news : List Json), Reacts c.update olds news →
        ∃ b, condition.test c = .ok (b, c) ∧
          (b = true ↔ WantedAdded reaction olds news ∨ ∃ v ∈ news, v.OfOtherKind) := by
  obtain ⟨w, built, wants_iff⟩ := exists_ofReaction wanted
  refine ⟨_, built, fun c olds news reacts => ?_⟩
  obtain ⟨b, tested, accepts_iff⟩ := test_reaction_eq w reacts
  refine ⟨b, tested, accepts_iff.trans ?_⟩
  simp only [WantedReactions.Accepts, wants_iff, WantedAdded]
  constructor
  · rintro ⟨v, mem, ⟨r, written, wanted, not_old⟩ | other⟩
    · exact .inl ⟨r, wanted, ⟨v, mem, written⟩, not_old⟩
    · exact .inr ⟨v, mem, other⟩
  · rintro (⟨r, wanted, ⟨v, mem, written⟩, not_old⟩ | ⟨v, mem, other⟩)
    · exact ⟨v, mem, .inl ⟨r, written, wanted, not_old⟩⟩
    · exact ⟨v, mem, .inr other⟩

/-- A thumb, as it stands in an update. -/
def thumb : Json := .obj [("type", .str "emoji"), ("emoji", .str "👍")]

/-- A paid reaction. -/
def paid : Json := .obj [("type", .str "paid")]

/-- An update with a paid reaction added to a thumb. -/
def paidReacted : Context :=
  { update := .obj [("message_reaction", .obj [("old_reaction", .arr [thumb]),
      ("new_reaction", .arr [thumb, paid])])]
    me := { id := .int 42 } }

theorem test_ofReaction_iff_paid :
    ∃ condition, ofReaction (.arr [.str "👍", paid]) = .ok condition ∧
      condition.test paidReacted = .ok (true, paidReacted) := by
  have thumb_written : (Reaction.emoji "👍").WrittenAs thumb := ⟨rfl, rfl⟩
  have paid_written : Reaction.paid.WrittenAs paid := rfl
  have wanted : ∀ x ∈ (Json.arr [.str "👍", paid]).listed, ∃ r, Wanted r x := by
    simpa [Json.listed] using ⟨⟨_, thumb_written⟩, ⟨_, paid_written⟩⟩
  obtain ⟨condition, built, judged⟩ := test_ofReaction_iff wanted
  obtain ⟨b, tested, accepts_iff⟩ := judged paidReacted [thumb] [thumb, paid]
    ⟨⟨_, rfl⟩, rfl, rfl, by simpa using thumb_written.isReaction,
      by simpa using ⟨thumb_written.isReaction, paid_written.isReaction⟩⟩
  obtain rfl : b = true := accepts_iff.mpr (.inl ⟨.paid, ⟨paid, by simp [Json.listed], rfl⟩,
    ⟨paid, by simp, rfl⟩, by simp [Reaction.WrittenAs, thumb, Json.field, Named.find?]⟩)
  exact ⟨condition, built, tested⟩

/-- An update with a reaction of another kind. -/
def otherReacted : Context :=
  { update := .obj [("message_reaction", .obj [("old_reaction", .arr []),
      ("new_reaction", .arr [.obj [("type", .str "other")]])])]
    me := { id := .int 42 } }

/-- A reaction of another kind is accepted for a wanted thumb, although no thumb was added. -/
theorem other_kind_is_accepted :
    ∃ condition, ofReaction (.str "👍") = .ok condition ∧
      condition.test otherReacted = .ok (true, otherReacted) ∧
      Reacts otherReacted.update [] [.obj [("type", .str "other")]] ∧
      ¬ WantedAdded (.str "👍") [] [.obj [("type", .str "other")]] := by
  refine ⟨.reaction reactionFilter { emoji := [.str "👍"], custom := [], paid := false }, by cbv,
    rfl, ⟨⟨_, rfl⟩, rfl, rfl, by simp, ?_⟩, ?_⟩
  · intro v mem
    obtain rfl := List.mem_singleton.mp mem
    exact ⟨⟨_, rfl⟩, fun type_eq => by simp [Json.field, Named.find?] at type_eq,
      fun type_eq => by simp [Json.field, Named.find?] at type_eq⟩
  · rintro ⟨r, ⟨x, mem, wanted⟩, ⟨v, mem', written⟩, -⟩
    obtain rfl := List.mem_singleton.mp mem'
    exact written.not_other (by simp [Json.OfOtherKind, Json.field, Named.find?])

end Condition
end UpdateDispatch
