import UpdateDispatch.Proofs.Filter.Tokens
import UpdateDispatch.Proofs.Json.Renaming
import UpdateDispatch.Proofs.Text.Case
import UpdateDispatch.Settings.Keys

/-!
# Names in lower case and in one word

The one-word form of a name has a capital at every place where title case raises a letter: at the
start of a part, and after a digit. So it does not lead back to the name but to the name with an
underscore before each letter that follows a digit, wherever this is not in the first part
(`toSnake_toCamel_eq_spread`). Two names have the same one-word form exactly if they are the same
when they are spread like this (`toCamel_eq_iff`).

For values this says that `Json.camelKeys` is undone by `Json.snakeKeys` exactly if all keys at all
depths are steady: `Json.snakeKeys_camelKeys`.
-/

namespace UpdateDispatch.Settings

open Text

/-! ## Names -/

/-- A part of a name: it starts with a lower-case letter and has only lower-case letters and
digits. -/
def IsPart (part : List Char) : Prop :=
  part.head?.any Char.isLower = true ∧ ∀ c ∈ part, isPlain c = true

instance : DecidablePred IsPart := fun part =>
  decidable_of_iff ((part.head?.any Char.isLower && part.all isPlain) = true) (by simp [IsPart])

/-- A name in lower case: parts with one underscore between two of them. -/
def IsSnake (name : String) : Prop :=
  ∃ parts, parts ≠ [] ∧ (∀ part ∈ parts, IsPart part) ∧ name.toList = ['_'].intercalate parts

/-- The second character is no letter right after a digit. -/
def NotRaised (c d : Char) : Prop := ¬(c.isDigit = true ∧ d.isLower = true)

instance : DecidableRel NotRaised := fun c d => by unfold NotRaised; infer_instance

/-- A name in lower case in which no letter follows a digit from the first underscore on. -/
def IsSteady (name : String) : Prop :=
  IsSnake name ∧ (name.toList.dropWhile (· != '_')).IsChain NotRaised

/-- A text with an underscore before each letter that follows a digit, after the character
`before`. -/
def spreadFrom (before : Char) : List Char → List Char
  | [] => []
  | c :: cs => (if before.isDigit && c.isLower then ['_'] else []) ++ c :: spreadFrom c cs

/-- A name with an underscore before each letter that follows a digit, from the first underscore
on. -/
def spread (name : String) : String :=
  String.ofList (name.toList.takeWhile (· != '_') ++
    spreadFrom '_' (name.toList.dropWhile (· != '_')))

variable {cs : List Char} {b c : Char}

theorem isLower_underscore : '_'.isLower = false := by decide

theorem isDigit_underscore : '_'.isDigit = false := by decide

/-! ## Spread names -/

@[simp] theorem spreadFrom_nil : spreadFrom b [] = [] := rfl

theorem spreadFrom_cons :
    spreadFrom b (c :: cs) =
      (if b.isDigit && c.isLower then ['_'] else []) ++ c :: spreadFrom c cs := rfl

theorem spreadFrom_eq_self_iff : spreadFrom b cs = cs ↔ (b :: cs).IsChain NotRaised := by
  induction cs generalizing b with
  | nil => simp
  | cons c cs ih =>
    rw [List.isChain_cons_cons, ← ih, spreadFrom_cons]
    by_cases h : b.isDigit = true ∧ c.isLower = true
    · have other : c ≠ '_' := ne_underscore_plain c (isPlain_of_isLower h.2)
      simp [h, NotRaised, other.symm]
    · simp [h, NotRaised]

theorem spreadFrom_spreadFrom : spreadFrom b (spreadFrom b cs) = spreadFrom b cs := by
  induction cs generalizing b with
  | nil => rfl
  | cons c cs ih =>
    by_cases h : b.isDigit = true ∧ c.isLower = true
    · simp [spreadFrom_cons, h, ih, isLower_underscore, isDigit_underscore]
    · simp [spreadFrom_cons, h, ih]

/-- An underscore separates what is before it from what is after it. -/
theorem spreadFrom_append (more : List Char) :
    spreadFrom b (cs ++ '_' :: more) = spreadFrom b cs ++ '_' :: spreadFrom '_' more := by
  induction cs generalizing b with
  | nil => simp [spreadFrom_cons, isLower_underscore]
  | cons c cs ih => simp [spreadFrom_cons, ih]

/-! ## One-word names -/

/-- A text without its underscores, with each letter in upper case that does not follow a letter;
`before` is the character before the text. -/
def raisedFrom (before : Char) : List Char → List Char
  | [] => []
  | c :: cs =>
    (if c = '_' then [] else if before.isLower then [c] else [c.toUpper]) ++ raisedFrom c cs

@[simp] theorem raisedFrom_nil : raisedFrom b [] = [] := rfl

theorem raisedFrom_cons :
    raisedFrom b (c :: cs) =
      (if c = '_' then [] else if b.isLower then [c] else [c.toUpper]) ++ raisedFrom c cs := rfl

theorem raisedFrom_append (more : List Char) :
    raisedFrom b (cs ++ '_' :: more) = raisedFrom b cs ++ raisedFrom '_' more := by
  induction cs generalizing b with
  | nil => simp [raisedFrom_cons]
  | cons c cs ih => simp [raisedFrom_cons, ih]

/-- Where an underscore goes, a letter is raised already. -/
theorem raisedFrom_spreadFrom : raisedFrom b (spreadFrom b cs) = raisedFrom b cs := by
  induction cs generalizing b with
  | nil => rfl
  | cons c cs ih =>
    by_cases h : b.isDigit = true ∧ c.isLower = true
    · have digit : b.isLower = false := by
        simpa [isDigit_plain b (by simp [isPlain, h.1])] using h.1
      simp [spreadFrom_cons, h, raisedFrom_cons, ih, digit, isLower_underscore]
    · simp [spreadFrom_cons, h, raisedFrom_cons, ih]

/-- Title case inside a part raises the letters after digits. -/
theorem titleFrom_eq_raisedFrom (before : List Char) (hb : isPlain b = true)
    (plain : ∀ c ∈ cs, isPlain c = true) : titleFrom (b :: before) cs = raisedFrom b cs := by
  induction cs generalizing b before with
  | nil => rfl
  | cons c cs ih =>
    obtain ⟨hc, rest⟩ := List.forall_mem_cons.mp plain
    simp [titleFrom, raisedFrom_cons, isCased_plain b hb, lowerBetween_plain _ hc,
      titleChar_plain c hc, ne_underscore_plain c hc, ih _ hc rest]

/-- The title case of a part. -/
theorem titleFrom_part {part : List Char} (h : IsPart part) :
    titleFrom [] part = raisedFrom '_' part := by
  obtain ⟨-, plain⟩ := h
  cases part with
  | nil => rfl
  | cons c cs =>
    obtain ⟨hc, rest⟩ := List.forall_mem_cons.mp plain
    simp [titleFrom, raisedFrom, titleChar_plain c hc, ne_underscore_plain c hc,
      titleFrom_eq_raisedFrom [] hc rest, isLower_underscore]

/-! ## Back to lower case -/

theorem lowerFrom_one (c : Char) : lowerFrom [] [c] = lowerBetween [] c [] := List.append_nil _

@[simp] theorem snakeTail_nil : snakeTail [] = [] := rfl

theorem snakeTail_cons :
    snakeTail (c :: cs) =
      (if isUpper c then ['_'] else []) ++ lowerFrom [] [c] ++ snakeTail cs := rfl

theorem snakeTail_append (cs more : List Char) :
    snakeTail (cs ++ more) = snakeTail cs ++ snakeTail more := by
  induction cs with
  | nil => rfl
  | cons c cs ih => simp [snakeTail_cons, ih]

theorem snakeTail_plain (plain : ∀ c ∈ cs, isPlain c = true) : snakeTail cs = cs := by
  induction cs with
  | nil => rfl
  | cons c cs ih =>
    obtain ⟨hc, rest⟩ := List.forall_mem_cons.mp plain
    simp [snakeTail_cons, isUpper_plain c hc, lowerFrom_one, lowerBetween_plain _ hc, ih rest]

/-- A letter that was raised gets an underscore. -/
theorem snakeTail_raisedFrom (hb : isPlain b = true) (plain : ∀ c ∈ cs, isPlain c = true) :
    snakeTail (raisedFrom b cs) = spreadFrom b cs := by
  induction cs generalizing b with
  | nil => rfl
  | cons c cs ih =>
    obtain ⟨hc, rest⟩ := List.forall_mem_cons.mp plain
    have other := ne_underscore_plain c hc
    by_cases letter : b.isLower = true
    · simp [raisedFrom_cons, spreadFrom_cons, snakeTail_cons, other, letter, isDigit_plain b hb,
        isUpper_plain c hc, lowerFrom_one, lowerBetween_plain _ hc, ih hc rest]
    · simp [raisedFrom_cons, spreadFrom_cons, snakeTail_cons, other, letter, isDigit_plain b hb,
        isUpper_toUpper_plain c hc, lowerFrom_one, lowerBetween_toUpper _ hc, ih hc rest]

/-- A part after the first one comes back behind an underscore. -/
theorem snakeTail_part {part : List Char} (h : IsPart part) :
    snakeTail (raisedFrom '_' part) = '_' :: spreadFrom '_' part := by
  obtain ⟨first, plain⟩ := h
  cases part with
  | nil => simp at first
  | cons c cs =>
    obtain ⟨hc, rest⟩ := List.forall_mem_cons.mp plain
    have letter : c.isLower = true := by simpa using first
    simp [raisedFrom_cons, spreadFrom_cons, snakeTail_cons, ne_underscore_plain c hc,
      isUpper_toUpper_plain c hc, letter, lowerFrom_one, lowerBetween_toUpper _ hc,
      snakeTail_raisedFrom hc rest, isLower_underscore, isDigit_underscore]

/-! ## Whole names -/

theorem IsPart.ne_underscore {part : List Char} (h : IsPart part) :
    ∀ c ∈ part, (c != '_') = true :=
  fun c hc => bne_iff_ne.mpr (ne_underscore_plain c (h.2 c hc))

/-- The parts joined by underscores, as the first part and what follows it. -/
theorem intercalate_parts (head : List Char) (tail : List (List Char)) :
    ['_'].intercalate (head :: tail) = head ++ tail.flatMap ('_' :: ·) := by
  induction tail generalizing head with
  | nil => simp
  | cons part tail ih => simp [List.intercalate_cons_cons, ih]

/-- A name that is divided into its first part and the others. -/
structure Divided (name : String) (head : List Char) (tail : List (List Char)) : Prop where
  first : IsPart head
  others : ∀ part ∈ tail, IsPart part
  text : name.toList = head ++ tail.flatMap ('_' :: ·)

theorem IsSnake.divided {name : String} (h : IsSnake name) :
    ∃ head tail, Divided name head tail := by
  obtain ⟨parts, some, all, text⟩ := h
  obtain ⟨head, tail, rfl⟩ := List.exists_cons_of_ne_nil some
  obtain ⟨first, others⟩ := List.forall_mem_cons.mp all
  exact ⟨head, tail, first, others, by rw [text, intercalate_parts]⟩

namespace Divided

variable {name : String} {head : List Char} {tail : List (List Char)}

theorem pieces_eq (h : Divided name head tail) : pieces '_' name.toList = head :: tail := by
  rw [pieces_eq_splitOn, h.text, ← intercalate_parts]
  refine List.splitOn_intercalate '_' ?_ (List.cons_ne_nil head tail)
  refine List.forall_mem_cons.mpr ⟨fun mem => ?_, fun part hp mem => ?_⟩
  · simpa using h.first.ne_underscore '_' mem
  · simpa using (h.others part hp).ne_underscore '_' mem

theorem takeWhile_eq (h : Divided name head tail) : name.toList.takeWhile (· != '_') = head := by
  rw [h.text, List.takeWhile_append_of_pos h.first.ne_underscore]
  cases tail <;> simp

theorem dropWhile_eq (h : Divided name head tail) :
    name.toList.dropWhile (· != '_') = tail.flatMap ('_' :: ·) := by
  rw [h.text, List.dropWhile_append_of_pos h.first.ne_underscore]
  cases tail <;> simp

end Divided

theorem spreadFrom_flatMap (b : Char) (cs : List Char) (tail : List (List Char)) :
    spreadFrom b (cs ++ tail.flatMap ('_' :: ·)) =
      spreadFrom b cs ++ tail.flatMap fun part => '_' :: spreadFrom '_' part := by
  induction tail generalizing b cs with
  | nil => simp
  | cons part tail ih => simp [spreadFrom_append, ih]

theorem raisedFrom_flatMap (b : Char) (cs : List Char) (tail : List (List Char)) :
    raisedFrom b (cs ++ tail.flatMap ('_' :: ·)) =
      raisedFrom b cs ++ tail.flatMap (raisedFrom '_') := by
  induction tail generalizing b cs with
  | nil => simp
  | cons part tail ih => simp [raisedFrom_append, ih]

/-- The characters of a name in one word, made without dividing the name. -/
def raised (name : String) : List Char :=
  name.toList.takeWhile (· != '_') ++ raisedFrom '_' (name.toList.dropWhile (· != '_'))

variable {name other : String}

theorem Divided.raised_eq {head : List Char} {tail : List (List Char)}
    (h : Divided name head tail) : raised name = head ++ tail.flatMap (raisedFrom '_') := by
  have rest := raisedFrom_flatMap '_' [] tail
  rw [raised, h.takeWhile_eq, h.dropWhile_eq]
  simpa [raisedFrom_cons] using rest

theorem Divided.spread_eq {head : List Char} {tail : List (List Char)}
    (h : Divided name head tail) :
    (spread name).toList = head ++ tail.flatMap fun part => '_' :: spreadFrom '_' part := by
  have rest := spreadFrom_flatMap '_' [] tail
  rw [spread, h.takeWhile_eq, h.dropWhile_eq]
  simpa [spreadFrom_cons] using rest

/-- Title case part by part raises the same letters. -/
theorem toCamel_eq (h : IsSnake name) : toCamel name = String.ofList (raised name) := by
  obtain ⟨head, tail, divided⟩ := h.divided
  have titles : tail.flatMap (titleFrom []) = tail.flatMap (raisedFrom '_') :=
    List.flatMap_congr fun part hp => titleFrom_part (divided.others part hp)
  have chars : camelChars name.toList = head ++ tail.flatMap (titleFrom []) := by
    rw [camelChars, divided.pieces_eq]
  rw [toCamel, chars, divided.raised_eq, titles]

/-- The first part comes back as it is. -/
theorem snakeChars_append {head : List Char} (h : IsPart head) (more : List Char) :
    snakeChars (head ++ more) = head ++ snakeTail more := by
  obtain ⟨first, plain⟩ := h
  cases head with
  | nil => simp at first
  | cons c cs =>
    obtain ⟨hc, rest⟩ := List.forall_mem_cons.mp plain
    simp [snakeChars, lowerFrom_one, lowerBetween_plain _ hc, snakeTail_append,
      snakeTail_plain rest]

theorem snakeTail_flatMap {tail : List (List Char)} (h : ∀ part ∈ tail, IsPart part) :
    snakeTail (tail.flatMap (raisedFrom '_')) =
      tail.flatMap fun part => '_' :: spreadFrom '_' part := by
  induction tail with
  | nil => rfl
  | cons part tail ih =>
    obtain ⟨hp, others⟩ := List.forall_mem_cons.mp h
    simp [snakeTail_append, snakeTail_part hp, ih others]

/-- The one-word form of a name leads back to the name as it is spread. -/
theorem toSnake_toCamel_eq_spread (h : IsSnake name) : toSnake (toCamel name) = spread name := by
  obtain ⟨head, tail, divided⟩ := h.divided
  refine String.toList_inj.mp ?_
  rw [toCamel_eq h, toSnake, divided.raised_eq, divided.spread_eq, String.toList_ofList,
    String.toList_ofList, snakeChars_append divided.first, snakeTail_flatMap divided.others]

/-! ## Spreading a name -/

/-- What is spread starts with an underscore if there is anything. -/
theorem spreadFrom_dropWhile (cs : List Char) :
    spreadFrom '_' (cs.dropWhile (· != '_')) = [] ∨
      ∃ more, spreadFrom '_' (cs.dropWhile (· != '_')) = '_' :: more := by
  cases rest : cs.dropWhile (· != '_') with
  | nil => exact .inl rfl
  | cons c cs' =>
    have stop : c = '_' := by simpa [rest] using List.head?_dropWhile_not (· != '_') cs
    exact .inr ⟨spreadFrom c cs', by simp [stop, spreadFrom_cons, isDigit_underscore]⟩

theorem ne_of_mem_takeWhile (cs : List Char) :
    ∀ c ∈ cs.takeWhile (· != '_'), (c != '_') = true :=
  fun _ hc => List.mem_takeWhile_imp (p := (· != '_')) hc

theorem takeWhile_spread (name : String) :
    (spread name).toList.takeWhile (· != '_') = name.toList.takeWhile (· != '_') := by
  rw [spread, String.toList_ofList, List.takeWhile_append_of_pos (ne_of_mem_takeWhile _)]
  obtain rest | ⟨more, rest⟩ := spreadFrom_dropWhile name.toList
  · simp [rest]
  · simp [rest]

theorem dropWhile_spread (name : String) :
    (spread name).toList.dropWhile (· != '_') =
      spreadFrom '_' (name.toList.dropWhile (· != '_')) := by
  rw [spread, String.toList_ofList, List.dropWhile_append_of_pos (ne_of_mem_takeWhile _)]
  obtain rest | ⟨more, rest⟩ := spreadFrom_dropWhile name.toList
  · simp [rest]
  · simp [rest]

theorem spread_spread (name : String) : spread (spread name) = spread name := by
  rw [spread, takeWhile_spread, dropWhile_spread, spreadFrom_spreadFrom, ← spread]

theorem raised_spread (name : String) : raised (spread name) = raised name := by
  rw [raised, takeWhile_spread, dropWhile_spread, raisedFrom_spreadFrom, ← raised]

/-- Spreading changes no name in which no letter is raised after a digit. -/
theorem spread_eq_self_iff (h : IsSnake name) : spread name = name ↔ IsSteady name := by
  have chain : ('_' :: name.toList.dropWhile (· != '_')).IsChain NotRaised ↔
      (name.toList.dropWhile (· != '_')).IsChain NotRaised := by
    cases name.toList.dropWhile (· != '_') <;> simp [NotRaised, isDigit_underscore]
  rw [IsSteady, and_iff_right h, ← chain, ← spreadFrom_eq_self_iff, ← String.toList_inj, spread,
    String.toList_ofList]
  conv_lhs => rhs; rw [← List.takeWhile_append_dropWhile (p := (· != '_')) (l := name.toList)]
  exact List.append_right_inj _

/-- Two names have one form in one word exactly if they are the same when they are spread. -/
theorem toCamel_eq_iff (hn : IsSnake name) (ho : IsSnake other) :
    toCamel name = toCamel other ↔ spread name = spread other := by
  constructor
  · intro same
    rw [← toSnake_toCamel_eq_spread hn, same, toSnake_toCamel_eq_spread ho]
  · intro same
    rw [toCamel_eq hn, toCamel_eq ho, ← raised_spread name, same, raised_spread]

end UpdateDispatch.Settings

/-! ## Keys of values -/

namespace UpdateDispatch.Json

open Settings

/-- A value whose keys are names in lower case comes back from its form in files as the value with
its keys spread, of keys that fall together the last one. If no letter is raised after a digit it
comes back as it is, and no keys fall together. Otherwise it does not come back, not even with its
fields in another order. Keys fall together in files exactly if they do when they are spread. -/
theorem snakeKeys_camelKeys {v : Json} (snake : v.Keyed IsSnake) :
    v.camelKeys.snakeKeys = mapKeys spread v ∧
    (v.Keyed IsSteady → v.camelKeys.snakeKeys = v ∧ v.Apart toCamel) ∧
    (v.camelKeys.snakeKeys.same v = true → v.Keyed IsSteady) ∧
    (v.Apart toCamel ↔ v.Apart spread) := by
  have spreads : v.camelKeys.snakeKeys = mapKeys spread v := by
    have apart : ∀ k l, IsSnake k → IsSnake l →
        toSnake (toCamel k) = toSnake (toCamel l) → toCamel k = toCamel l := by
      intro k l hk hl same
      rwa [toCamel_eq_iff hk hl, ← toSnake_toCamel_eq_spread hk, ← toSnake_toCamel_eq_spread hl]
    rw [snakeKeys, camelKeys, mapKeys_comp snake apart]
    exact mapKeys_congr snake fun k hk => toSnake_toCamel_eq_spread hk
  have together : v.Apart toCamel ↔ v.Apart spread :=
    ⟨.of_finer snake fun k l hk hl => (toCamel_eq_iff hk hl).mpr,
      .of_finer snake fun k l hk hl => (toCamel_eq_iff hk hl).mp⟩
  refine ⟨spreads, fun steady => ⟨?_, ?_⟩, fun equal => ?_, together⟩
  · refine mapKeys_mapKeys (fun k hk => ?_) steady
    rw [toSnake_toCamel_eq_spread hk.1, (spread_eq_self_iff hk.1).mpr hk]
  · refine together.mpr (.of_finer steady (fun k l hk hl same => ?_) steady.apart)
    rwa [(spread_eq_self_iff hk.1).mpr hk, (spread_eq_self_iff hl.1).mpr hl] at same
  · rw [spreads] at equal
    have fixed := snake.of_same (fun k _ => spread_spread k) equal
    exact fixed.imp fun k hk => (spread_eq_self_iff hk.1).mp hk.2

/-- Nested settings with digits in their names, which no letter follows except in a first part. -/
def numberedSettings : Json :=
  .obj [("bot_info", .obj [("a1b2_id", .int 7)]), ("levels", .arr [.obj [("x_y1_z", .null)]])]

theorem snakeKeys_camelKeys_numbered :
    numberedSettings.Keyed IsSnake ∧ numberedSettings.Keyed IsSteady ∧
      numberedSettings.camelKeys.snakeKeys = numberedSettings ∧
      numberedSettings.Apart toCamel := by
  have identity : IsSteady "bot_info" :=
    ⟨⟨[['b', 'o', 't'], ['i', 'n', 'f', 'o']], by decide, by decide, rfl⟩, by decide⟩
  have number : IsSteady "a1b2_id" :=
    ⟨⟨[['a', '1', 'b', '2'], ['i', 'd']], by decide, by decide, rfl⟩, by decide⟩
  have levels : IsSteady "levels" :=
    ⟨⟨[['l', 'e', 'v', 'e', 'l', 's']], by decide, by decide, rfl⟩, by decide⟩
  have item : IsSteady "x_y1_z" :=
    ⟨⟨[['x'], ['y', '1'], ['z']], by decide, by decide, rfl⟩, by decide⟩
  have inner : (Json.obj [("a1b2_id", .int 7)]).Keyed IsSteady :=
    .obj (by decide) (by simp [number]) (by simp [Keyed.int])
  have list : (Json.arr [.obj [("x_y1_z", .null)]]).Keyed IsSteady :=
    .arr (List.forall_mem_singleton.mpr (.obj (by decide) (by simp [item]) (by simp [Keyed.null])))
  have steady : numberedSettings.Keyed IsSteady :=
    .obj (by decide) (by simp [identity, levels]) (by simp [inner, list])
  have snake : numberedSettings.Keyed IsSnake := steady.imp fun _ h => h.1
  exact ⟨snake, steady, (snakeKeys_camelKeys snake).2.1 steady⟩

/-- Two names with the same form in one word. -/
def collidingNames : Json := .obj [("x_a1b", .int 1), ("x_a1_b", .int 2)]

/-- A letter after a digit is raised like the start of a part, so one of two fields is lost. -/
theorem field_is_lost :
    collidingNames.Keyed IsSnake ∧ collidingNames.camelKeys = .obj [("xA1B", .int 2)] ∧
      collidingNames.camelKeys.snakeKeys = .obj [("x_a1_b", .int 2)] ∧
      collidingNames.camelKeys.snakeKeys.same collidingNames = false := by
  have front : IsSnake "x_a1b" := ⟨[['x'], ['a', '1', 'b']], by decide, by decide, rfl⟩
  have apart : IsSnake "x_a1_b" := ⟨[['x'], ['a', '1'], ['b']], by decide, by decide, rfl⟩
  have snake : collidingNames.Keyed IsSnake :=
    .obj (by decide) (by simp [front, apart]) (by simp [Keyed.int])
  exact ⟨snake, by cbv, by cbv, by cbv⟩

end UpdateDispatch.Json
