import Mathlib
import UpdateDispatch.Context.Reactions
import UpdateDispatch.Proofs.Condition.Reactions

/-!
# Changes of reactions

How a change of reactions is split up, over lists that write known reactions. Each family is paired
off on its own: a text that the new list has `n` times and the old one `o` times is `n - o` times
added, `min n o` times kept and `o - n` times removed (`FamilyChange.Splits`), where what is added
comes in the order of the new list and the rest in the order of the old one.

If no reaction is there twice after the change, a text is added exactly if it is new. So the
condition for wanted reactions, which looks new reactions up among the old ones and pairs nothing
off, accepts what is reported as added (`wanted_iff_reported`).
-/

namespace UpdateDispatch

/-! ## Pairing texts off -/

section

variable {news olds added kept removed : List String} {x : String}

/-- Whether two lists of texts are paired off: each text as often as it can be. -/
structure PairsOff (news olds added kept removed : List String) : Prop where
  added_sublist : added.Sublist news
  kept_sublist : kept.Sublist olds
  removed_sublist : removed.Sublist olds
  count_added : ∀ x, added.count x = news.count x - olds.count x
  count_kept : ∀ x, kept.count x = min (news.count x) (olds.count x)
  count_removed : ∀ x, removed.count x = olds.count x - news.count x

theorem eraseFirst_str (x : String) (texts : List String) :
    eraseFirst (.str x) (texts.map .str) = (texts.erase x).map .str := by
  induction texts with
  | nil => rfl
  | cons y texts ih =>
    rw [List.map_cons, eraseFirst, ih, List.erase_cons, apply_ite (List.map Json.str)]
    simp [Json.same]

theorem any_same_str (x : String) (texts : List String) :
    (texts.map Json.str).any (·.same (.str x)) = true ↔ x ∈ texts := by
  simp [Json.same_iff_eq_str]

/-- An old text that is new as well is kept, and taken out of what is added. -/
theorem PairsOff.keep (mem : x ∈ news) (paired : PairsOff (news.erase x) olds added kept removed) :
    PairsOff news (x :: olds) added (x :: kept) removed where
  added_sublist := paired.added_sublist.trans List.erase_sublist
  kept_sublist := paired.kept_sublist.cons_cons x
  removed_sublist := paired.removed_sublist.cons x
  count_added y := by
    rw [paired.count_added, List.count_erase, List.count_cons]
    omega
  count_kept y := by
    rw [List.count_cons, paired.count_kept, List.count_erase, List.count_cons]
    by_cases same : x = y
    · subst same
      have := List.count_pos_iff.mpr mem
      simp only [BEq.rfl, if_true]
      omega
    · simp [same]
  count_removed y := by
    rw [paired.count_removed, List.count_erase, List.count_cons]
    by_cases same : x = y
    · subst same
      have := List.count_pos_iff.mpr mem
      simp only [BEq.rfl, if_true]
      omega
    · simp [same]

/-- An old text that is not new is removed. -/
theorem PairsOff.remove (missing : x ∉ news) (paired : PairsOff news olds added kept removed) :
    PairsOff news (x :: olds) added kept (x :: removed) where
  added_sublist := paired.added_sublist
  kept_sublist := paired.kept_sublist.cons x
  removed_sublist := paired.removed_sublist.cons_cons x
  count_added y := by
    rw [paired.count_added, List.count_cons]
    by_cases same : x = y
    · subst same
      simp [List.count_eq_zero_of_not_mem missing]
    · simp [same]
  count_kept y := by
    rw [paired.count_kept, List.count_cons]
    by_cases same : x = y
    · subst same
      simp [List.count_eq_zero_of_not_mem missing]
    · simp [same]
  count_removed y := by
    rw [List.count_cons, paired.count_removed, List.count_cons]
    by_cases same : x = y
    · subst same
      simp [List.count_eq_zero_of_not_mem missing]
    · simp [same]

theorem exists_pairsOff (news olds : List String) : ∃ added kept removed,
    pairOff (news.map .str) (olds.map .str) =
        (added.map .str, kept.map .str, removed.map .str) ∧
      PairsOff news olds added kept removed := by
  induction olds generalizing news with
  | nil => exact ⟨news, [], [], rfl, .refl _, .refl _, .refl _, by simp, by simp, by simp⟩
  | cons x olds ih =>
    rw [List.map_cons, pairOff]
    by_cases mem : x ∈ news
    · obtain ⟨added, kept, removed, paired_eq, paired⟩ := ih (news.erase x)
      rw [if_pos ((any_same_str x news).mpr mem), eraseFirst_str, paired_eq]
      exact ⟨added, x :: kept, removed, rfl, paired.keep mem⟩
    · obtain ⟨added, kept, removed, paired_eq, paired⟩ := ih news
      rw [if_neg (mem ∘ (any_same_str x news).mp), paired_eq]
      exact ⟨added, kept, x :: removed, rfl, paired.remove mem⟩

end

/-! ## Families -/

/-- The values that stand for some reactions of one family: in the order of a list of reactions,
and each as often as is asked for. -/
def Reaction.Picks (family : String → Reaction) (all : List Reaction) (times : Reaction → ℕ)
    (items : List Json) : Prop :=
  ∃ texts : List String, items = texts.map .str ∧ (texts.map family).Sublist all ∧
    ∀ x, texts.count x = times (family x)

/-- Whether a change of a family splits up what was there before and what is there after it. -/
structure FamilyChange.Splits (change : FamilyChange) (family : String → Reaction)
    (olds news : List Reaction) : Prop where
  now : Reaction.Picks family news (news.count ·) change.now
  added : Reaction.Picks family news (fun r => news.count r - olds.count r) change.added
  kept : Reaction.Picks family olds (fun r => min (news.count r) (olds.count r)) change.kept
  removed : Reaction.Picks family olds (fun r => olds.count r - news.count r) change.removed

namespace Reaction

/-- The text of an emoji. -/
def emoji? : Reaction → Option String
  | .emoji s => some s
  | .custom _ | .paid => none

/-- The identifier of a custom emoji. -/
def custom? : Reaction → Option String
  | .custom id => some id
  | .emoji _ | .paid => none

theorem isPartialInv_emoji : Function.IsPartialInv Reaction.emoji emoji? := by
  rintro s (s' | id | _) <;> simp [emoji?, eq_comm]

theorem isPartialInv_custom : Function.IsPartialInv Reaction.custom custom? := by
  rintro id (s | id' | _) <;> simp [custom?, eq_comm]

variable {family : String → Reaction} {text? : Reaction → Option String} {rs : List Reaction}

/-- The texts of one family stand in a list of reactions in their order. -/
theorem map_filterMap_sublist (inverse : Function.IsPartialInv family text?)
    (rs : List Reaction) : ((rs.filterMap text?).map family).Sublist rs := by
  induction rs with
  | nil => exact .refl _
  | cons r rs ih =>
    rw [List.filterMap_cons]
    cases of_family : text? r with
    | none => exact ih.cons r
    | some x =>
      obtain rfl := (inverse x r).mp of_family
      exact ih.cons_cons _

theorem count_filterMap (inverse : Function.IsPartialInv family text?) (rs : List Reaction)
    (x : String) : (rs.filterMap text?).count x = rs.count (family x) := by
  rw [List.count_filterMap, List.count]
  refine List.countP_congr fun r _ => ?_
  rw [beq_iff_eq, beq_iff_eq, inverse x r, eq_comm]

/-- Pairing off the texts of one family splits the change of that family. -/
theorem splits_between (inverse : Function.IsPartialInv family text?) (olds news : List Reaction) :
    (FamilyChange.between ((news.filterMap text?).map .str)
      ((olds.filterMap text?).map .str)).Splits family olds news := by
  obtain ⟨added, kept, removed, paired_eq, paired⟩ :=
    exists_pairsOff (news.filterMap text?) (olds.filterMap text?)
  simp only [FamilyChange.between, paired_eq]
  have count_eq := count_filterMap inverse
  have sublist := map_filterMap_sublist inverse
  exact ⟨⟨_, rfl, sublist news, count_eq news⟩,
    ⟨added, rfl, (paired.added_sublist.map family).trans (sublist news),
      fun x => by rw [paired.count_added, count_eq, count_eq]⟩,
    ⟨kept, rfl, (paired.kept_sublist.map family).trans (sublist olds),
      fun x => by rw [paired.count_kept, count_eq, count_eq]⟩,
    ⟨removed, rfl, (paired.removed_sublist.map family).trans (sublist olds),
      fun x => by rw [paired.count_removed, count_eq, count_eq]⟩⟩

theorem exists_iff {P : Reaction → Prop} :
    (∃ r, P r) ↔ (∃ s, P (.emoji s)) ∨ (∃ id, P (.custom id)) ∨ P .paid := by
  constructor
  · rintro ⟨r, holds⟩
    cases r with
    | emoji s => exact .inl ⟨s, holds⟩
    | custom id => exact .inr (.inl ⟨id, holds⟩)
    | paid => exact .inr (.inr holds)
  · rintro (⟨s, holds⟩ | ⟨id, holds⟩ | holds)
    exacts [⟨_, holds⟩, ⟨_, holds⟩, ⟨_, holds⟩]

/-! ## Reading a side -/

/-- The side of a change that some reactions make up. -/
def side (rs : List Reaction) : ReactionSide where
  emoji := (rs.filterMap emoji?).map .str
  custom := (rs.filterMap custom?).map .str
  paid := decide (.paid ∈ rs)

theorem add_eq {r : Reaction} {v : Json} (written : r.WrittenAs v) (rs : List Reaction) :
    (side rs).add v = .ok (side (rs ++ [r])) := by
  have get_eq := Json.get_eq_field written.isReaction.isObject "type"
  cases r with
  | emoji s =>
    obtain ⟨type_eq, emoji_eq⟩ := written
    have required : v.require "emoji" = .ok (.str s) := by
      rw [Json.require_eq_field (by simp [emoji_eq]), emoji_eq]
    simp [ReactionSide.add, get_eq, type_eq, required, side, emoji?, custom?, Json.same, bind,
      Except.bind]
  | custom id =>
    obtain ⟨type_eq, custom_eq⟩ := written
    have required : v.require "custom_emoji_id" = .ok (.str id) := by
      rw [Json.require_eq_field (by simp [custom_eq]), custom_eq]
    simp [ReactionSide.add, get_eq, type_eq, required, side, emoji?, custom?, Json.same, bind,
      Except.bind]
  | paid =>
    have type_eq : v.field "type" = .str "paid" := written
    simp [ReactionSide.add, get_eq, type_eq, side, emoji?, custom?, Json.same, bind, Except.bind]

/-- Reading reactions one after another adds them to the ones before. -/
theorem foldlM_add {vs : List Json} (written : List.Forall₂ WrittenAs rs vs)
    (before : List Reaction) :
    vs.foldlM ReactionSide.add (side before) = .ok (side (before ++ rs)) := by
  induction written generalizing before with
  | nil => rw [List.append_nil]; rfl
  | @cons r v rs vs here _ ih =>
    rw [List.foldlM_cons, add_eq here, List.append_cons before r rs]
    exact ih (before ++ [r])

end Reaction

/-! ## Updates -/

/-- Whether a field of a value lists some reactions; one that is missing lists none. -/
def Json.Lists (v : Json) (field : String) (rs : List Reaction) : Prop :=
  ∃ vs, v.getOr field (.arr []) = .ok (.arr vs) ∧ List.Forall₂ Reaction.WrittenAs rs vs

/-- Whether an update changes the reactions to a message, from some to others. -/
structure Json.Changes (update : Json) (olds news : List Reaction) : Prop where
  isObject : (update.field "message_reaction").IsObject
  old : (update.field "message_reaction").Lists "old_reaction" olds
  new : (update.field "message_reaction").Lists "new_reaction" news

theorem ReactionSide.ofField_eq {v : Json} {field : String} {rs : List Reaction}
    (lists : v.Lists field rs) : ofField v field = .ok (Reaction.side rs) := by
  obtain ⟨vs, listed, written⟩ := lists
  rw [ofField, listed]
  exact Reaction.foldlM_add written []

namespace Context

variable {c : Context} {olds news : List Reaction}

theorem reactions_eq (changes : c.update.Changes olds news) :
    c.reactions = .ok (.between (Reaction.side news) (Reaction.side olds)) := by
  have kind_eq : c.kind "message_reaction" = .ok (c.update.field "message_reaction") :=
    Json.get_eq_field (Json.isObject_of_field changes.isObject.ne_null) _
  have there := Json.isNull_eq_false_iff.mpr changes.isObject.ne_null
  simp only [reactions, kind_eq, there, ReactionSide.ofField_eq changes.new,
    ReactionSide.ofField_eq changes.old, bind, Except.bind]
  rfl

/-- How the reactions to a message changed, family by family: what is there now, and what of it was
added, kept and removed, without loss or duplication. A paid reaction is only looked for. -/
theorem reactions_split (changes : c.update.Changes olds news) :
    ∃ change, c.reactions = .ok change ∧
      change.emoji.Splits .emoji olds news ∧ change.custom.Splits .custom olds news ∧
      (change.paid = true ↔ .paid ∈ news) ∧
      (change.paidAdded = true ↔ .paid ∈ news ∧ .paid ∉ olds) := by
  refine ⟨_, reactions_eq changes, Reaction.splits_between Reaction.isPartialInv_emoji olds news,
    Reaction.splits_between Reaction.isPartialInv_custom olds news, ?_, ?_⟩
  · simp [ReactionChange.between, Reaction.side]
  · simp [ReactionChange.between, Reaction.side]

/-- A reaction that is written as an emoji. -/
def writtenEmoji (s : String) : Json := .obj [("type", .str "emoji"), ("emoji", .str s)]

/-- An update with a heart added to two thumbs of which one is taken back, and a paid reaction that
stays. -/
def heartReacted : Context :=
  { update := .obj [("message_reaction", .obj
      [("old_reaction", .arr [Condition.thumb, Condition.thumb, Condition.paid]),
        ("new_reaction", .arr [Condition.paid, writtenEmoji "❤", Condition.thumb])])]
    me := { id := .int 42 } }

theorem heartReacted_changes : heartReacted.update.Changes
    [.emoji "👍", .emoji "👍", .paid] [.paid, .emoji "❤", .emoji "👍"] := by
  have thumb : (Reaction.emoji "👍").WrittenAs Condition.thumb := ⟨rfl, rfl⟩
  have heart : (Reaction.emoji "❤").WrittenAs (writtenEmoji "❤") := ⟨rfl, rfl⟩
  have paid : Reaction.paid.WrittenAs Condition.paid := rfl
  exact ⟨⟨_, rfl⟩, ⟨_, rfl, .cons thumb (.cons thumb (.cons paid .nil))⟩,
    ⟨_, rfl, .cons paid (.cons heart (.cons thumb .nil))⟩⟩

theorem reactions_split_of_heart :
    ∃ change, heartReacted.reactions = .ok change ∧
      change.emoji.added = [.str "❤"] ∧ change.emoji.kept = [.str "👍"] ∧
      change.emoji.removed = [.str "👍"] ∧ change.paid = true ∧ change.paidAdded = false := by
  obtain ⟨change, changed, emoji, custom, paid, paidAdded⟩ := reactions_split heartReacted_changes
  refine ⟨change, changed, ?_, ?_, ?_, paid.mpr (by simp),
    Bool.eq_false_iff.mpr (mt paidAdded.mp (by simp))⟩
  all_goals
    obtain rfl := Except.ok.inj ((reactions_eq heartReacted_changes).symm.trans changed)
    rfl

/-! ## What a condition accepts and what is reported -/

/-- If no reaction is there twice after a change, a text of a family is added exactly if it was not
there before. -/
theorem mem_added_iff {change : FamilyChange} {family : String → Reaction}
    (splits : change.Splits family olds news) (distinct : news.Nodup) (x : String) :
    .str x ∈ change.added ↔ family x ∈ news ∧ family x ∉ olds := by
  obtain ⟨texts, added_eq, -, count_eq⟩ := splits.added
  have at_most_once := List.nodup_iff_count_le_one.mp distinct (family x)
  have mem_iff : Json.str x ∈ change.added ↔ 0 < texts.count x := by
    simp [added_eq, List.count_pos_iff]
  rw [mem_iff, count_eq, ← List.count_pos_iff, ← List.count_eq_zero]
  dsimp only
  omega

end Context

namespace Condition

/-- Whether one of the wanted reactions is reported as added. -/
def ReportedAdded (reaction : Json) (change : ReactionChange) : Prop :=
  (∃ s, (∃ x ∈ reaction.listed, Wanted (.emoji s) x) ∧ .str s ∈ change.emoji.added) ∨
    (∃ id, (∃ x ∈ reaction.listed, Wanted (.custom id) x) ∧ .str id ∈ change.custom.added) ∨
    (∃ x ∈ reaction.listed, Wanted .paid x) ∧ change.paidAdded = true

/-- The reactions that a list of values writes are the ones that it was written from. -/
theorem exists_written_iff {r : Reaction} {rs : List Reaction} {vs : List Json}
    (written : List.Forall₂ Reaction.WrittenAs rs vs) :
    (∃ v ∈ vs, r.WrittenAs v) ↔ r ∈ rs := by
  induction written with
  | nil => simp
  | @cons r' v rs vs here _ ih =>
    have head_iff : r.WrittenAs v ↔ r = r' :=
      ⟨fun written => written.unique here, fun same => same ▸ here⟩
    rw [List.exists_mem_cons_iff, head_iff, ih, List.mem_cons]

theorem exists_of_written {rs : List Reaction} {vs : List Json}
    (written : List.Forall₂ Reaction.WrittenAs rs vs) :
    ∀ v ∈ vs, ∃ r : Reaction, r.WrittenAs v := by
  induction written with
  | nil => simp
  | cons here _ ih => exact List.forall_mem_cons.mpr ⟨⟨_, here⟩, ih⟩

theorem isReaction_of_written {rs : List Reaction} {vs : List Json}
    (written : List.Forall₂ Reaction.WrittenAs rs vs) : ∀ v ∈ vs, v.IsReaction := by
  intro v mem
  obtain ⟨r, here⟩ := exists_of_written written v mem
  exact here.isReaction

/-- Over values that write reactions, what is accepted is a wanted reaction that is new. -/
theorem exists_accepts_iff {w : WantedReactions} {olds news : List Reaction}
    {oldVs newVs : List Json} (old_written : List.Forall₂ Reaction.WrittenAs olds oldVs)
    (new_written : List.Forall₂ Reaction.WrittenAs news newVs) :
    (∃ v ∈ newVs, w.Accepts oldVs v) ↔ ∃ r, w.Wants r ∧ r ∈ news ∧ r ∉ olds := by
  simp only [← exists_written_iff old_written, ← exists_written_iff new_written, not_exists,
    not_and]
  constructor
  · rintro ⟨v, mem, ⟨r, written, wants, not_old⟩ | other⟩
    · exact ⟨r, wants, ⟨v, mem, written⟩, not_old⟩
    · obtain ⟨r, written⟩ := exists_of_written new_written v mem
      exact absurd other written.not_other
  · rintro ⟨r, wants, ⟨v, mem, written⟩, not_old⟩
    exact ⟨v, mem, .inl ⟨r, written, wants, not_old⟩⟩

/-- The condition for wanted reactions accepts an update that lists no new reaction twice exactly
if one of the wanted reactions is reported as added. -/
theorem wanted_iff_reported {reaction : Json}
    (wanted : ∀ x ∈ reaction.listed, ∃ r, Wanted r x) :
    ∃ condition, ofReaction reaction = .ok condition ∧
      ∀ (c : Context) (olds news : List Reaction), c.update.Changes olds news → news.Nodup →
        ∃ b change, condition.test c = .ok (b, c) ∧ c.reactions = .ok change ∧
          (b = true ↔ ReportedAdded reaction change) := by
  obtain ⟨w, built, wants_iff⟩ := exists_ofReaction wanted
  refine ⟨_, built, fun c olds news changes distinct => ?_⟩
  obtain ⟨oldVs, old_eq, old_written⟩ := changes.old
  obtain ⟨newVs, new_eq, new_written⟩ := changes.new
  obtain ⟨b, tested, accepts_iff⟩ := test_reaction_eq w ⟨changes.isObject, old_eq, new_eq,
    isReaction_of_written old_written, isReaction_of_written new_written⟩
  refine ⟨b, _, tested, Context.reactions_eq changes, ?_⟩
  have emoji_iff := Context.mem_added_iff
    (Reaction.splits_between Reaction.isPartialInv_emoji olds news) distinct
  have custom_iff := Context.mem_added_iff
    (Reaction.splits_between Reaction.isPartialInv_custom olds news) distinct
  rw [accepts_iff, exists_accepts_iff old_written new_written]
  simp only [Reaction.exists_iff, wants_iff, ReportedAdded, ReactionChange.between, Reaction.side,
    emoji_iff, custom_iff, Bool.and_eq_true, Bool.not_eq_true', decide_eq_true_eq,
    decide_eq_false_iff_not]

/-- The condition for hearts and paid reactions accepts, since a heart is reported as added. -/
theorem wanted_iff_reported_of_heart :
    ∃ condition change, ofReaction (.arr [.str "❤", paid]) = .ok condition ∧
      condition.test Context.heartReacted = .ok (true, Context.heartReacted) ∧
      Context.heartReacted.reactions = .ok change ∧
      ReportedAdded (.arr [.str "❤", paid]) change := by
  have heart : Wanted (.emoji "❤") (.str "❤") := ⟨rfl, rfl⟩
  have wanted : ∀ x ∈ (Json.arr [.str "❤", paid]).listed, ∃ r, Wanted r x := by
    have paid_written : Wanted .paid paid := rfl
    simpa [Json.listed] using ⟨⟨_, heart⟩, ⟨_, paid_written⟩⟩
  obtain ⟨condition, built, judged⟩ := wanted_iff_reported wanted
  obtain ⟨b, change, tested, changed, iff⟩ := judged Context.heartReacted _ _
    Context.heartReacted_changes (by decide)
  have reported : ReportedAdded (.arr [.str "❤", paid]) change := by
    obtain rfl := Except.ok.inj
      ((Context.reactions_eq Context.heartReacted_changes).symm.trans changed)
    exact .inl ⟨"❤", ⟨.str "❤", by simp [Json.listed], heart⟩, List.mem_singleton_self _⟩
  obtain rfl : b = true := iff.mpr reported
  exact ⟨condition, change, built, tested, changed, reported⟩

end Condition
end UpdateDispatch
