import UpdateDispatch.Proofs.Condition.Straying

/-!
# Commands and their addressees

A command at the start of a text is meant for a bot if it is one of the names that a condition
waits for, as it stands or up to its first at sign, with the user name of the bot after it
(`isCommand_str`). The condition answers for the first entity that is such a command, and the rest
of the text is the new match (`first_summons_answers`). A command with another addressee is not
meant, unless it is waited for as it stands.
-/

namespace UpdateDispatch.Condition

variable {names : List String} {own text command name target cut : String} {entities : List Json}
  {entity : Json}

/-! ## Addressees -/

/-- Whether a command is a name with an addressee, parted at the first at sign. -/
def Addressed (command name target : String) : Prop :=
  command = name ++ "@" ++ target ∧ '@' ∉ name.toList

theorem addressed?_eq_some_iff :
    addressed? command = some (name, target) ↔ Addressed command name target := by
  unfold addressed? Addressed
  rw [List.span_eq_takeWhile_dropWhile]
  constructor
  · intro parted
    split at parted
    · next before sign after split_eq =>
      simp only [Option.some.injEq, Prod.mk.injEq] at parted split_eq
      obtain ⟨rfl, rfl⟩ := parted
      have sign_eq : sign = '@' := by
        have stopped := List.head?_dropWhile_not (· != '@') command.toList
        simpa [split_eq.2] using stopped
      have whole : before ++ sign :: after = command.toList := by
        rw [← split_eq.1, ← split_eq.2, List.takeWhile_append_dropWhile]
      refine ⟨String.toList_inj.mp ?_, ?_⟩
      · rw [← whole, sign_eq]
        simp
      · rw [String.toList_ofList, ← split_eq.1]
        intro held
        simpa using List.mem_takeWhile_imp held
    · cases parted
  · rintro ⟨rfl, free⟩
    have passed : ∀ c ∈ name.toList, (c != '@') = true := fun c held => by
      rw [bne_iff_ne]
      rintro rfl
      exact free held
    have taken : (name ++ "@" ++ target).toList.takeWhile (· != '@') = name.toList := by
      simp [List.takeWhile_append_of_pos passed]
    have dropped : (name ++ "@" ++ target).toList.dropWhile (· != '@') = '@' :: target.toList := by
      simp [List.dropWhile_append_of_pos passed]
    rw [taken, dropped]
    simp

/-- Whether a command is one of some names, or one of them with a bot for its addressee, whose user
name is compared without case. -/
def Meant (names : List String) (own command : String) : Prop :=
  command ∈ names ∨ ∃ name target, Addressed command name target ∧ name ∈ names ∧
    Text.lower target = Text.lower own

theorem Addressed.unique {name' target' : String} (parted : Addressed command name target)
    (parted' : Addressed command name' target') : name = name' ∧ target = target' := by
  have same := (addressed?_eq_some_iff.mpr parted).symm.trans (addressed?_eq_some_iff.mpr parted')
  exact Prod.mk.inj (Option.some.inj same)

theorem isCommand_str (names : List String) (own command : String) :
    ∃ b, isCommand names (.str own) command = .ok b ∧ (b = true ↔ Meant names own command) := by
  unfold isCommand Meant
  by_cases held : command ∈ names
  · exact ⟨true, by simp [held], by simp [held]⟩
  rw [if_neg (by simpa using held), or_iff_right held]
  cases parted : addressed? command with
  | none =>
    refine ⟨false, rfl, ⟨by simp, ?_⟩⟩
    rintro ⟨name, target, addressed, -⟩
    rw [addressed?_eq_some_iff.mpr addressed] at parted
    cases parted
  | some pair =>
    have addressed := addressed?_eq_some_iff.mp parted
    refine ⟨Text.lower pair.2 == Text.lower own && names.contains pair.1, rfl, ?_⟩
    rw [Bool.and_eq_true, beq_iff_eq, List.contains_iff_mem]
    constructor
    · rintro ⟨same, listed⟩
      exact ⟨pair.1, pair.2, addressed, listed, same⟩
    · rintro ⟨name, target, addressed', listed, same⟩
      obtain ⟨rfl, rfl⟩ := addressed.unique addressed'
      exact ⟨same, listed⟩

/-! ## The first command that is meant -/

/-- Whether an entity is a command at the start of a text that is meant, and which one. -/
structure Summons (names : List String) (own text : String) (entity : Json) (command : String) :
    Prop where
  starts : StartsCommand entity
  covers : Covers entity text command
  meant : Meant names own command

theorem Covers.unique {cut' : String} (covers : Covers entity text cut)
    (covers' : Covers entity text cut') : cut = cut' := by
  obtain ⟨n, length_eq, rfl⟩ := covers
  obtain ⟨n', length_eq', rfl⟩ := covers'
  obtain rfl : n = n' := Json.int.inj (length_eq.symm.trans length_eq')
  rfl

/-- The text after a command, without blanks at its start. -/
def argumentsOf (text command : String) : String :=
  String.ofList (Text.trimStart (text.toList.drop (1 + command.length)))

/-- Whether some entity of a list is the first one that is a command that is meant. -/
def FirstSummons (names : List String) (own text : String) (entities : List Json)
    (command : String) : Prop :=
  ∃ before entity later, entities = before ++ entity :: later ∧
    (∀ passed ∈ before, ∀ other, ¬ Summons names own text passed other) ∧
    Summons names own text entity command

/-- What a search finds: the text after the first command that is meant, or nothing if there is
none. -/
def Finds (names : List String) (own text : String) (entities : List Json)
    (found : Option String) : Prop :=
  (∃ command, FirstSummons names own text entities command ∧
      found = some (argumentsOf text command)) ∨
    (∀ entity ∈ entities, ∀ command, ¬ Summons names own text entity command) ∧ found = none

theorem Finds.cons {found : Option String} (finds : Finds names own text entities found)
    (not_meant : ∀ command, ¬ Summons names own text entity command) :
    Finds names own text (entity :: entities) found := by
  rcases finds with ⟨command, ⟨before, first, later, rfl, none_before, summons⟩, rfl⟩ | ⟨none, rfl⟩
  · exact .inl ⟨command, ⟨entity :: before, first, later, rfl,
      List.forall_mem_cons.mpr ⟨not_meant, none_before⟩, summons⟩, rfl⟩
  · exact .inr ⟨List.forall_mem_cons.mpr ⟨not_meant, none⟩, rfl⟩

theorem findCommand_finds (names : List String) (own text : String)
    (typed : ∀ entity ∈ entities, entity.IsEntity) :
    ∃ found, findCommand names (.str own) (.str text) entities = .ok found ∧
      Finds names own text entities found := by
  induction entities with
  | nil => exact ⟨none, rfl, .inr ⟨List.forall_mem_nil _, rfl⟩⟩
  | cons entity entities ih =>
    rw [List.forall_mem_cons] at typed
    obtain ⟨found, searched, finds⟩ := ih typed.2
    by_cases starts : StartsCommand entity
    · obtain ⟨cut, covers, unfolded⟩ :=
        findCommand_cons_str names (.str own) entities typed.1 starts text
      obtain ⟨b, judged, meant_iff⟩ := isCommand_str names own cut
      rw [unfolded, judged]
      cases b with
      | true =>
        have first : FirstSummons names own text (entity :: entities) cut :=
          ⟨[], entity, entities, rfl, List.forall_mem_nil _, starts, covers, meant_iff.mp rfl⟩
        refine ⟨_, rfl, .inl ⟨cut, first, ?_⟩⟩
        rw [argumentsOf, Nat.add_comm 1]
      | false =>
        refine ⟨found, searched, finds.cons fun command summons => ?_⟩
        obtain rfl := covers.unique summons.covers
        exact Bool.false_ne_true (meant_iff.mpr summons.meant)
    · refine ⟨found, ?_, finds.cons fun command summons => starts summons.starts⟩
      rw [findCommand_cons_of_not typed.1 starts, searched]

/-! ## Conditions -/

theorem commandName_str (bare : name.toList.head? ≠ some '/') :
    commandName (.str name) = .ok name := by
  unfold commandName
  split
  · next s text_eq =>
    cases text_eq
    split
    · next slash => exact absurd (by rw [slash]; rfl) bare
    · rfl
  · next not_text => exact absurd rfl (not_text name)

theorem ofCommand_names {argument : Json} (listed : argument.listed = names.map .str)
    (bare : ∀ name ∈ names, name.toList.head? ≠ some '/') :
    ofCommand argument = .ok (.command commandFilter names) := by
  have built : (names.map Json.str).mapM commandName = .ok names := by
    rw [List.mapM_map, mapM_ok _ id, List.map_id]
    exact fun name mem => commandName_str (bare name mem)
  unfold ofCommand
  simp only [compile_commandFilter, listed, built, bind, Except.bind]

variable {c : Context} {kind : String}

theorem postOf_eq_of_only (of_post : kind ∈ postKinds)
    (only : ∀ other ∈ postKinds, other ≠ kind → c.update.field other = .null) :
    postOf c.update = c.update.field kind := by
  rcases mem_postKinds_iff.mp of_post with rfl | rfl
  · rcases postOf_cases c.update with ⟨picked, -⟩ | ⟨picked, missing⟩
    · exact picked
    · rw [picked, missing]
      exact only "channel_post" (by simp [postKinds]) (by decide)
  · have missing := only "message" (by simp [postKinds]) (by decide)
    rw [postOf, missing, Json.firstPresent_null_pair]

/-- What a command condition does on a message or post with a text and a list of entities. -/
theorem test_command_text (names : List String) (named : c.me.username = .str own)
    (of_post : kind ∈ postKinds)
    (only : ∀ other ∈ postKinds, other ≠ kind → c.update.field other = .null)
    (text_eq : (c.update.field kind).field "text" = .str text)
    (list_eq : (c.update.field kind).field "entities" = .arr entities)
    (typed : ∀ entity ∈ entities, entity.IsEntity) :
    ∃ found, (Condition.command commandFilter names).test c = .ok (sliced c found) ∧
      Finds names own text entities found := by
  have there : (c.update.field kind).field "text" ≠ .null := by simp [text_eq]
  have post : (c.update.field kind).IsObject := Json.isObject_of_field there
  have object : c.update.IsObject := Json.isObject_of_field post.ne_null
  have picked := postOf_eq_of_only of_post only
  have content_eq : contentOf (postOf c.update) = .str text := by
    rw [picked, contentOf, Json.firstPresent_cons_of_ne_null there, text_eq]
  have items : (postOf c.update).getOr "entities" (.arr []) = .ok (.arr entities) := by
    rw [picked, ← list_eq]
    exact Json.getOr_eq_field (by simp [list_eq]) _
  cases passes : c.passes commandFilter with
  | true =>
    obtain ⟨found, searched, finds⟩ := findCommand_finds names own text typed
    refine ⟨found, ?_, finds⟩
    rw [test_command names passes object (picked ▸ post) items, content_eq, named, searched]
    rfl
  | false =>
    -- a command at the start would have let the message pass
    refine ⟨none, test_of_not_passes rfl passes, .inr ⟨fun entity mem command summons => ?_, rfl⟩⟩
    have passed : c.passes commandFilter = true :=
      passes_commandFilter_iff.mpr ⟨kind, of_post, satisfies_of_starts list_eq mem summons.starts⟩
    rw [passes] at passed
    cases passed

/-- A command with another addressee is not meant, if no name has an at sign. -/
theorem not_summons_of_addressed (plain : ∀ name ∈ names, '@' ∉ name.toList)
    (covers : Covers entity text command) (addressed : Addressed command name target)
    (elsewhere : Text.lower target ≠ Text.lower own) (other : String) :
    ¬ Summons names own text entity other := by
  intro summons
  obtain rfl := covers.unique summons.covers
  rcases summons.meant with verbatim | ⟨name', target', addressed', -, same⟩
  · refine plain command verbatim ?_
    rw [addressed.1]
    simp
  · obtain ⟨-, rfl⟩ := addressed.unique addressed'
    exact elsewhere same

/-- The condition for some names holds on a message or post with a text exactly if some entity is a
command that is meant, and then the text after the first such command is the new match; else nothing
changes. If no name has an at sign and all commands have other addressees, it does not hold. -/
theorem first_summons_answers {argument : Json} (listed : argument.listed = names.map .str)
    (bare : ∀ name ∈ names, name.toList.head? ≠ some '/') (named : c.me.username = .str own)
    (of_post : kind ∈ postKinds)
    (only : ∀ other ∈ postKinds, other ≠ kind → c.update.field other = .null)
    (text_eq : (c.update.field kind).field "text" = .str text)
    (list_eq : (c.update.field kind).field "entities" = .arr entities)
    (typed : ∀ entity ∈ entities, entity.IsEntity) :
    ∃ condition accepted c', ofCommand argument = .ok condition ∧
      condition.test c = .ok (accepted, c') ∧
      (accepted = true ↔ ∃ entity ∈ entities, ∃ command, Summons names own text entity command) ∧
      (accepted = true → ∃ command, FirstSummons names own text entities command ∧
        c' = { c with matched := .value (.str (argumentsOf text command)) }) ∧
      (accepted = false → c' = c) ∧
      ((∀ name ∈ names, '@' ∉ name.toList) →
        (∀ entity ∈ entities, StartsCommand entity → ∃ command name target,
          Covers entity text command ∧ Addressed command name target ∧
            Text.lower target ≠ Text.lower own) →
        accepted = false) := by
  obtain ⟨found, tested, finds⟩ :=
    test_command_text names named of_post only text_eq list_eq typed
  have iff : (sliced c found).1 = true ↔
      ∃ entity ∈ entities, ∃ command, Summons names own text entity command := by
    rcases finds with ⟨command, ⟨before, entity, later, rfl, -, summons⟩, rfl⟩ | ⟨none_meant, rfl⟩
    · exact ⟨fun _ => ⟨entity, by simp, command, summons⟩, fun _ => rfl⟩
    · refine ⟨by simp [sliced], ?_⟩
      rintro ⟨entity, mem, command, summons⟩
      exact (none_meant entity mem command summons).elim
  refine ⟨_, (sliced c found).1, (sliced c found).2, ofCommand_names listed bare, tested, iff,
    fun held => ?_, fun refused => ?_, fun plain elsewhere => ?_⟩
  · rcases finds with ⟨command, first, rfl⟩ | ⟨-, rfl⟩
    · exact ⟨command, first, rfl⟩
    · cases held
  · rcases finds with ⟨command, first, rfl⟩ | ⟨-, rfl⟩
    · cases refused
    · rfl
  · rw [← Bool.not_eq_true, iff]
    rintro ⟨entity, mem, other, summons⟩
    obtain ⟨command, name, target, covers, addressed, differs⟩ :=
      elsewhere entity mem summons.starts
    exact not_summons_of_addressed plain covers addressed differs other summons

/-- A command at the start of a text, of a length that counts the slash. -/
def commandEntity (length : Int) : Json :=
  .obj [("type", .str "bot_command"), ("offset", .int 0), ("length", .int length)]

/-- A channel post with a command for the bot, whose user name is written in small letters. -/
def banPost : Context :=
  { update := .obj [("channel_post",
      .obj [("text", .str "/ban@HELPER  now"), ("entities", .arr [commandEntity 11])])]
    me := { id := .int 42, username := .str "helper" } }

theorem first_summons_answers_ban :
    ∃ condition c', ofCommand (.str "ban") = .ok condition ∧
      condition.test banPost = .ok (true, c') ∧
      ∃ command, FirstSummons ["ban"] "helper" "/ban@HELPER  now" [commandEntity 11] command ∧
        c' =
          { banPost with matched := .value (.str (argumentsOf "/ban@HELPER  now" command)) } := by
  have listed : (Json.str "ban").listed = ["ban"].map .str := rfl
  have named : banPost.me.username = .str "helper" := rfl
  have of_post : "channel_post" ∈ postKinds := by simp [postKinds]
  have only : ∀ other ∈ postKinds, other ≠ "channel_post" → banPost.update.field other = .null := by
    simp [postKinds]
    rfl
  have text_eq : (banPost.update.field "channel_post").field "text" = .str "/ban@HELPER  now" := rfl
  have list_eq : (banPost.update.field "channel_post").field "entities" =
      .arr [commandEntity 11] := rfl
  have typed : ∀ entity ∈ [commandEntity 11], entity.IsEntity :=
    List.forall_mem_singleton.mpr ⟨⟨_, rfl⟩, ⟨_, rfl⟩, ⟨_, rfl⟩⟩
  obtain ⟨condition, accepted, c', built, tested, iff, accepts, -⟩ :=
    first_summons_answers listed (by decide) named of_post only text_eq list_eq typed
  have meant : Meant ["ban"] "helper" "ban@HELPER" :=
    .inr ⟨"ban", "HELPER", ⟨rfl, by decide⟩, by simp, by decide +kernel⟩
  have held : accepted = true := iff.mpr
    ⟨_, List.mem_singleton_self _, "ban@HELPER", ⟨rfl, rfl⟩, ⟨11, rfl, by decide +kernel⟩, meant⟩
  subst held
  exact ⟨condition, c', built, tested, accepts rfl⟩

end UpdateDispatch.Condition
