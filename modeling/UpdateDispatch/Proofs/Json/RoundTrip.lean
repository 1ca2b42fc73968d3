import UpdateDispatch.Proofs.Json.Fields
import UpdateDispatch.Proofs.Json.Numbers
import UpdateDispatch.Proofs.Json.Strings

/-!
# Values read back

What the printer writes over several lines, the reader reads as the same value: `read_indented`.
This holds for values without doubles, whose whole numbers are short enough to be read and whose
objects have every key once (`Plain`).

The argument follows the value. `ReadBack` says of a value that its text is read as it is, whatever
text comes after it; a list or an object is read back if its parts are.
-/

namespace UpdateDispatch.Json

/-- A value without doubles, with whole numbers that the reader takes, and with every key of an
object once. All keys have the property `p`. -/
inductive Plain (p : String → Prop) : Json → Prop where
  | null : Plain p .null
  | bool (b : Bool) : Plain p (.bool b)
  | int {n : Int} (h : (Nat.toDigits 10 n.natAbs).length ≤ maxDigits) : Plain p (.int n)
  | str (s : String) : Plain p (.str s)
  | arr {items : List Json} (h : ∀ v ∈ items, Plain p v) : Plain p (.arr items)
  | obj {fields : List (String × Json)} (distinct : (fields.map Prod.fst).Nodup)
      (keys : ∀ field ∈ fields, p field.1) (h : ∀ field ∈ fields, Plain p field.2) :
      Plain p (.obj fields)

variable {p : String → Prop}

theorem Plain.keyed {v : Json} (h : v.Plain p) : v.Keyed p := by
  induction h with
  | null => exact .null
  | bool b => exact .bool b
  | int => exact .int _
  | str s => exact .str s
  | arr _ ih => exact .arr ih
  | obj distinct keys _ ih => exact .obj distinct keys ih

/-- Changing all keys leaves a value plain, if the change can be taken back. -/
theorem Plain.mapKeys {f g : String → String} {v : Json} (h : v.Plain p)
    (back : ∀ k, p k → g (f k) = k) : (mapKeys f v).Plain fun _ => True := by
  induction h with
  | null => simpa [Json.mapKeys] using Plain.null
  | bool b => simpa [Json.mapKeys] using Plain.bool b
  | int h => simpa [Json.mapKeys] using Plain.int h
  | str s => simpa [Json.mapKeys] using Plain.str s
  | arr _ ih =>
    rw [Json.mapKeys, mapKeysItems_eq_map]
    exact .arr (List.forall_mem_map.mpr ih)
  | obj distinct keys _ ih =>
    rw [mapKeys_obj back distinct keys]
    refine .obj ?_ (fun _ _ => trivial) (List.forall_mem_map.mpr ih)
    simpa only [mapKeysFields_eq_map] using nodup_mapKeysFields back distinct keys

/-- The text of a value, and what may follow it, is read as the value and the rest. -/
def ReadBack (v : Json) : Prop :=
  ∀ depth fuel rest, (indentedAt depth v).toList.length < fuel → EndsNumber rest →
    readValue fuel ((indentedAt depth v).toList ++ rest) = .ok (v, rest)

/-! ## White space and starts -/

/-- A text that starts with a part of a list or of an object: neither with white space nor with
the end of one. -/
def StartsPart (cs : List Char) : Prop :=
  ∃ c more, cs = c :: more ∧ isSpace c = false ∧ c ≠ ']' ∧ c ≠ '\x7d'

theorem StartsPart.cons {c : Char} (more : List Char)
    (h : isSpace c = false ∧ c ≠ ']' ∧ c ≠ '\x7d') : StartsPart (c :: more) :=
  ⟨c, more, rfl, h⟩

theorem StartsPart.append {cs : List Char} (h : StartsPart cs) (more : List Char) :
    StartsPart (cs ++ more) := by
  obtain ⟨c, rest, rfl, hc⟩ := h
  exact ⟨c, rest ++ more, rfl, hc⟩

/-- A mark is no white space. -/
theorem skipSpace_mark {c : Char} (h : c ∈ [',', ':', ']', '\x7d']) (cs : List Char) :
    skipSpace (c :: cs) = c :: cs := by
  have mark : isSpace c = false := by
    simp only [List.mem_cons, List.not_mem_nil, or_false] at h
    rcases h with rfl | rfl | rfl | rfl <;> decide
  simp [skipSpace, mark]

theorem skipSpace_blank (cs : List Char) : skipSpace (' ' :: cs) = skipSpace cs := by
  simp [skipSpace, isSpace]

theorem skipSpace_of_starts {cs : List Char} (h : StartsPart cs) : skipSpace cs = cs := by
  obtain ⟨c, rest, rfl, space, -⟩ := h
  simp [skipSpace, space]

theorem toList_newline (depth : Nat) :
    (newline depth).toList = '\n' :: List.replicate (2 * depth) ' ' := by
  simp [newline]

/-- A line break and the blanks after it are passed over. -/
theorem skipSpace_newline (depth : Nat) (cs : List Char) :
    skipSpace ((newline depth).toList ++ cs) = skipSpace cs := by
  have blanks : ∀ n : Nat, skipSpace (List.replicate n ' ' ++ cs) = skipSpace cs := by
    intro n
    induction n with
    | zero => rfl
    | succ n ih => simpa [List.replicate_succ, skipSpace, isSpace] using ih
  rw [toList_newline, List.cons_append]
  simpa [skipSpace, isSpace] using blanks (2 * depth)

/-- The end of a line does not go on with a number. -/
theorem EndsNumber.newline (depth : Nat) (cs : List Char) :
    EndsNumber ((Json.newline depth).toList ++ cs) := by
  rw [toList_newline]
  exact .cons _ (by decide)

theorem toList_stringText (s : String) :
    (stringText s).toList = '"' :: (s.toList.flatMap charText ++ ['"']) := by
  simp [stringText]

/-! ## The texts of values

The equations of the texts come first; what follows goes by them and does not open the
definitions again. -/

section Texts

variable (depth : Nat)

theorem indentedAt_null : indentedAt depth .null = "null" := rfl

theorem indentedAt_bool (b : Bool) :
    indentedAt depth (.bool b) = if b then "true" else "false" := rfl

theorem indentedAt_int (n : Int) : indentedAt depth (.int n) = toString n := rfl

theorem indentedAt_str (s : String) : indentedAt depth (.str s) = stringText s := rfl

theorem indentedAt_arr_nil : indentedAt depth (.arr []) = "[]" := rfl

theorem indentedAt_arr_cons (v : Json) (rest : List Json) :
    indentedAt depth (.arr (v :: rest)) =
      "[" ++ newline (depth + 1) ++ indentedItems (depth + 1) (v :: rest) ++ newline depth ++
        "]" := rfl

theorem indentedAt_obj_nil : indentedAt depth (.obj []) = "\x7b\x7d" := rfl

theorem indentedAt_obj_cons (field : String × Json) (rest : List (String × Json)) :
    indentedAt depth (.obj (field :: rest)) =
      "\x7b" ++ newline (depth + 1) ++ indentedFields (depth + 1) (field :: rest) ++
        newline depth ++ "\x7d" := rfl

theorem indentedItems_one (v : Json) : indentedItems depth [v] = indentedAt depth v := rfl

theorem indentedItems_cons (v w : Json) (rest : List Json) :
    indentedItems depth (v :: w :: rest) =
      indentedAt depth v ++ "," ++ newline depth ++ indentedItems depth (w :: rest) := rfl

theorem indentedFields_one (k : String) (v : Json) :
    indentedFields depth [(k, v)] = stringText k ++ ": " ++ indentedAt depth v := rfl

theorem indentedFields_cons (k : String) (v : Json) (field : String × Json)
    (rest : List (String × Json)) :
    indentedFields depth ((k, v) :: field :: rest) =
      stringText k ++ ": " ++ indentedAt depth v ++ "," ++ newline depth ++
        indentedFields depth (field :: rest) := rfl

end Texts

theorem toList_arr (depth : Nat) {items : List Json} (h : items ≠ []) :
    (indentedAt depth (.arr items)).toList =
      '[' :: ((newline (depth + 1)).toList ++ ((indentedItems (depth + 1) items).toList ++
        ((newline depth).toList ++ [']']))) := by
  cases items with
  | nil => exact absurd rfl h
  | cons v rest => simp [indentedAt_arr_cons]

theorem toList_obj (depth : Nat) {fields : List (String × Json)} (h : fields ≠ []) :
    (indentedAt depth (.obj fields)).toList =
      '\x7b' :: ((newline (depth + 1)).toList ++ ((indentedFields (depth + 1) fields).toList ++
        ((newline depth).toList ++ ['\x7d']))) := by
  cases fields with
  | nil => exact absurd rfl h
  | cons field rest => simp [indentedAt_obj_cons]

theorem toList_items_cons (depth : Nat) (v : Json) {rest : List Json} (h : rest ≠ []) :
    (indentedItems depth (v :: rest)).toList =
      (indentedAt depth v).toList ++
        ',' :: ((newline depth).toList ++ (indentedItems depth rest).toList) := by
  cases rest with
  | nil => exact absurd rfl h
  | cons w rest => simp [indentedItems_cons]

theorem toList_fields_one (depth : Nat) (k : String) (v : Json) :
    (indentedFields depth [(k, v)]).toList =
      '"' :: (k.toList.flatMap charText ++ '"' :: ':' :: ' ' :: (indentedAt depth v).toList) := by
  simp [indentedFields_one, toList_stringText]

theorem toList_fields_cons (depth : Nat) (k : String) (v : Json) {rest : List (String × Json)}
    (h : rest ≠ []) :
    (indentedFields depth ((k, v) :: rest)).toList =
      '"' :: (k.toList.flatMap charText ++ '"' :: ':' :: ' ' :: ((indentedAt depth v).toList ++
        ',' :: ((newline depth).toList ++ (indentedFields depth rest).toList))) := by
  cases rest with
  | nil => exact absurd rfl h
  | cons field rest => simp [indentedFields_cons, toList_stringText]

/-- A whole number starts with a sign or a digit. -/
theorem exists_cons_toString (n : Int) :
    ∃ c cs, (toString n).toList = c :: cs ∧ (c = '-' ∨ c.isDigit = true) := by
  rw [toList_toString]
  by_cases negative : n < 0
  · exact ⟨_, _, by rw [if_pos negative, List.cons_append], .inl rfl⟩
  · cases hd : Nat.toDigits 10 n.natAbs with
    | nil => exact absurd hd Nat.toDigits_ne_nil
    | cons d ds =>
      exact ⟨d, ds, by simp [negative], .inr (isDigit_of_mem_toDigits (hd ▸ List.mem_cons_self))⟩

/-- What starts a number starts no other value and is no white space. -/
theorem ne_of_starts_number {c d : Char} (hc : c = '-' ∨ c.isDigit = true) (hm : d ≠ '-')
    (hd : d.isDigit = false) : c ≠ d := by
  rintro rfl
  simp [hm, hd] at hc

/-- What starts a number is neither white space nor a mark. -/
theorem isSpace_of_number {c : Char} (h : c = '-' ∨ c.isDigit = true) :
    isSpace c = false ∧ c ≠ ']' ∧ c ≠ '\x7d' ∧ c ≠ '"' ∧ c ≠ '[' ∧ c ≠ '\x7b' := by
  have other := @ne_of_starts_number c
  simp [isSpace, other h (show ' ' ≠ '-' by decide) (by decide),
    other h (show '\t' ≠ '-' by decide) (by decide),
    other h (show '\n' ≠ '-' by decide) (by decide),
    other h (show '\r' ≠ '-' by decide) (by decide),
    other h (show ']' ≠ '-' by decide) (by decide),
    other h (show '\x7d' ≠ '-' by decide) (by decide),
    other h (show '"' ≠ '-' by decide) (by decide),
    other h (show '[' ≠ '-' by decide) (by decide),
    other h (show '\x7b' ≠ '-' by decide) (by decide)]

theorem Plain.startsPart {v : Json} (h : v.Plain p) (depth : Nat) :
    StartsPart (indentedAt depth v).toList := by
  cases h with
  | null =>
    have text : (indentedAt depth .null).toList = ['n', 'u', 'l', 'l'] := by
      simp [indentedAt_null]
    exact text ▸ .cons _ (by decide)
  | bool b =>
    have text : (indentedAt depth (.bool b)).toList =
        if b then ['t', 'r', 'u', 'e'] else ['f', 'a', 'l', 's', 'e'] := by
      cases b <;> simp [indentedAt_bool]
    cases b <;> exact text ▸ .cons _ (by decide)
  | @int n _ =>
    obtain ⟨c, cs, hcs, hc⟩ := exists_cons_toString n
    obtain ⟨space, list, object, -⟩ := isSpace_of_number hc
    exact ⟨c, cs, by simpa [indentedAt_int] using hcs, space, list, object⟩
  | str s =>
    rw [indentedAt_str, toList_stringText]
    exact .cons _ (by decide)
  | @arr items _ =>
    by_cases empty : items = []
    · have text : (indentedAt depth (.arr [])).toList = ['[', ']'] := by
        simp [indentedAt_arr_nil]
      exact empty ▸ text ▸ .cons _ (by decide)
    · exact toList_arr depth empty ▸ .cons _ (by decide)
  | @obj fields _ _ =>
    by_cases empty : fields = []
    · have text : (indentedAt depth (.obj [])).toList = ['\x7b', '\x7d'] := by
        simp [indentedAt_obj_nil]
      exact empty ▸ text ▸ .cons _ (by decide)
    · exact toList_obj depth empty ▸ .cons _ (by decide)

theorem startsPart_items {items : List Json} (hne : items ≠ []) (plain : ∀ v ∈ items, v.Plain p)
    (depth : Nat) : StartsPart (indentedItems depth items).toList := by
  obtain ⟨v, rest, rfl⟩ := List.exists_cons_of_ne_nil hne
  have start := (plain v List.mem_cons_self).startsPart depth
  by_cases last : rest = []
  · simpa [last, indentedItems_one] using start
  · rw [toList_items_cons depth v last]
    exact start.append _

theorem startsPart_fields {fields : List (String × Json)} (hne : fields ≠ []) (depth : Nat) :
    StartsPart (indentedFields depth fields).toList := by
  obtain ⟨⟨k, v⟩, rest, rfl⟩ := List.exists_cons_of_ne_nil hne
  by_cases last : rest = []
  · rw [last, toList_fields_one]
    exact .cons _ (by decide)
  · rw [toList_fields_cons depth k v last]
    exact .cons _ (by decide)

/-! ## Lists and objects -/

/-- The items of a list are read back up to the end of the list, if each of them is. -/
theorem readItems_indentedItems {items : List Json} (hne : items ≠ [])
    (plain : ∀ v ∈ items, v.Plain p) (back : ∀ v ∈ items, v.ReadBack) (depth outer fuel : Nat)
    (rest : List Char) (hf : (indentedItems depth items).toList.length + 1 < fuel) :
    readItems fuel
      ((indentedItems depth items).toList ++ ((newline outer).toList ++ ']' :: rest)) =
        .ok (items, rest) := by
  induction items generalizing fuel with
  | nil => exact absurd rfl hne
  | cons v items ih =>
    obtain ⟨fuel, rfl⟩ := Nat.exists_eq_add_one_of_ne_zero (Nat.ne_zero_of_lt hf)
    have first := back v List.mem_cons_self depth fuel
    by_cases last : items = []
    · subst last
      have read := first _ (by simpa [indentedItems_one] using hf) (.newline outer (']' :: rest))
      simp [indentedItems_one, readItems, read, skipSpace_newline, skipSpace_mark, bind,
        Except.bind]
    · have plain' : ∀ w ∈ items, w.Plain p := fun w hw => plain w (List.mem_cons_of_mem v hw)
      rw [toList_items_cons depth v last] at hf ⊢
      simp only [List.length_append, List.length_cons] at hf
      have others := ih last plain' (fun w hw => back w (List.mem_cons_of_mem v hw))
        fuel (by omega)
      have start := (startsPart_items last plain' depth).append
        ((newline outer).toList ++ ']' :: rest)
      have read := first (',' :: ((newline depth).toList ++ ((indentedItems depth items).toList ++
        ((newline outer).toList ++ ']' :: rest)))) (by omega) (.cons _ (by decide))
      simp [readItems, read, skipSpace_mark, skipSpace_newline, skipSpace_of_starts start, others,
        bind, Except.bind]

/-- The fields of an object are read back up to the end of the object, if their values are. -/
theorem readFields_indentedFields {fields : List (String × Json)} (hne : fields ≠ [])
    (plain : ∀ field ∈ fields, field.2.Plain p) (back : ∀ field ∈ fields, field.2.ReadBack)
    (depth outer fuel : Nat) (rest : List Char)
    (hf : (indentedFields depth fields).toList.length < fuel) :
    readFields fuel
      ((indentedFields depth fields).toList ++ ((newline outer).toList ++ '\x7d' :: rest)) =
        .ok (fields, rest) := by
  induction fields generalizing fuel with
  | nil => exact absurd rfl hne
  | cons field fields ih =>
    obtain ⟨k, v⟩ := field
    obtain ⟨fuel, rfl⟩ := Nat.exists_eq_add_one_of_ne_zero (Nat.ne_zero_of_lt hf)
    have size := length_le_flatMap_charText k.toList
    have first := (show ReadBack v from back (k, v) List.mem_cons_self) depth fuel
    have value : StartsPart (indentedAt depth v).toList :=
      (plain (k, v) List.mem_cons_self).startsPart depth
    by_cases last : fields = []
    · subst last
      rw [toList_fields_one] at hf ⊢
      simp only [List.length_append, List.length_cons] at hf
      have key := fun more => readChars_text k.toList more fuel (by omega)
      have start := value.append ((newline outer).toList ++ '\x7d' :: rest)
      have read := first _ (by omega) (.newline outer ('\x7d' :: rest))
      simp [readFields, key, skipSpace_mark, skipSpace_blank, skipSpace_of_starts start, read,
        skipSpace_newline, bind, Except.bind]
    · rw [toList_fields_cons depth k v last] at hf ⊢
      simp only [List.length_append, List.length_cons] at hf
      have key := fun more => readChars_text k.toList more fuel (by omega)
      have others := ih last (fun f hf => plain f (List.mem_cons_of_mem _ hf))
        (fun f hf => back f (List.mem_cons_of_mem _ hf)) fuel (by omega)
      have next := (startsPart_fields last depth).append ((newline outer).toList ++ '\x7d' :: rest)
      have read := first (',' :: ((newline depth).toList ++ ((indentedFields depth fields).toList ++
        ((newline outer).toList ++ '\x7d' :: rest)))) (by omega) (.cons _ (by decide))
      have start := value.append (',' :: ((newline depth).toList ++
        ((indentedFields depth fields).toList ++ ((newline outer).toList ++ '\x7d' :: rest))))
      simp [readFields, key, skipSpace_mark, skipSpace_blank, skipSpace_of_starts start, read,
        skipSpace_newline, skipSpace_of_starts next, others, bind, Except.bind]

/-! ## Values -/

/-- A string is read by reading its characters. -/
theorem readValue_quote (fuel : Nat) (cs : List Char) :
    readValue (fuel + 1) ('"' :: cs) =
      readChars fuel cs >>= fun found => .ok (.str (String.ofList found.1), found.2) := rfl

theorem readValue_null (fuel : Nat) (rest : List Char) :
    readValue (fuel + 1) ('n' :: 'u' :: 'l' :: 'l' :: rest) = .ok (.null, rest) := rfl

theorem readValue_true (fuel : Nat) (rest : List Char) :
    readValue (fuel + 1) ('t' :: 'r' :: 'u' :: 'e' :: rest) = .ok (.bool true, rest) := rfl

theorem readValue_false (fuel : Nat) (rest : List Char) :
    readValue (fuel + 1) ('f' :: 'a' :: 'l' :: 's' :: 'e' :: rest) = .ok (.bool false, rest) := rfl

theorem readValue_arr_nil (fuel : Nat) (rest : List Char) :
    readValue (fuel + 1) ('[' :: ']' :: rest) = .ok (.arr [], rest) := rfl

theorem readValue_obj_nil (fuel : Nat) (rest : List Char) :
    readValue (fuel + 1) ('\x7b' :: '\x7d' :: rest) = .ok (.obj [], rest) := rfl

/-- A value that starts none of the compound ones is a constant or a number. -/
theorem readValue_scalar {c : Char} {cs : List Char} (fuel : Nat)
    (h : c ≠ '"' ∧ c ≠ '[' ∧ c ≠ '\x7b') :
    readValue (fuel + 1) (c :: cs) = readScalar (c :: cs) := by
  simp [readValue, h]

/-- A list is read by reading its items. -/
theorem readValue_list {cs more : List Char} (fuel : Nat) (start : skipSpace cs = more)
    (hs : StartsPart more) : readValue (fuel + 1) ('[' :: cs) =
      readItems fuel more >>= fun found => .ok (.arr found.1, found.2) := by
  obtain ⟨c, more, rfl, -, hc, -⟩ := hs
  simp [readValue, start, hc]

/-- An object is read by reading its fields. -/
theorem readValue_object {cs more : List Char} (fuel : Nat) (start : skipSpace cs = more)
    (hs : StartsPart more) : readValue (fuel + 1) ('\x7b' :: cs) =
      readFields fuel more >>= fun found => .ok (ofFields found.1, found.2) := by
  obtain ⟨c, more, rfl, -, -, hc⟩ := hs
  simp [readValue, start, hc]

theorem readValue_arr {fuel : Nat} {cs more rest : List Char} {items : List Json}
    (start : skipSpace cs = more) (hs : StartsPart more)
    (h : readItems fuel more = .ok (items, rest)) :
    readValue (fuel + 1) ('[' :: cs) = .ok (.arr items, rest) := by
  rw [readValue_list fuel start hs, h]
  rfl

theorem readValue_obj {fuel : Nat} {cs more rest : List Char} {fields : List (String × Json)}
    (start : skipSpace cs = more) (hs : StartsPart more)
    (h : readFields fuel more = .ok (fields, rest)) :
    readValue (fuel + 1) ('\x7b' :: cs) = .ok (ofFields fields, rest) := by
  rw [readValue_object fuel start hs, h]
  rfl

/-- It is enough to read a value back with fuel to spare. -/
theorem ReadBack.of_succ {v : Json}
    (h : ∀ depth fuel rest, (indentedAt depth v).toList.length ≤ fuel → EndsNumber rest →
      readValue (fuel + 1) ((indentedAt depth v).toList ++ rest) = .ok (v, rest)) :
    v.ReadBack := by
  intro depth fuel rest hf ends
  obtain ⟨fuel, rfl⟩ := Nat.exists_eq_add_one_of_ne_zero (Nat.ne_zero_of_lt hf)
  exact h depth fuel rest (Nat.le_of_lt_succ hf) ends

theorem readBack_null : ReadBack .null :=
  .of_succ fun depth fuel rest _ _ => by
    simp [indentedAt_null, readValue_null]

theorem readBack_bool (b : Bool) : ReadBack (.bool b) :=
  .of_succ fun depth fuel rest _ _ => by
    cases b <;> simp [indentedAt_bool, readValue_true, readValue_false]

theorem readBack_int {n : Int} (h : (Nat.toDigits 10 n.natAbs).length ≤ maxDigits) :
    ReadBack (.int n) :=
  .of_succ fun depth fuel rest _ ends => by
    obtain ⟨c, cs, hcs, hc⟩ := exists_cons_toString n
    have read := readScalar_toString h ends
    obtain ⟨-, -, -, start⟩ := isSpace_of_number hc
    rw [hcs, List.cons_append] at read
    rw [indentedAt_int, hcs, List.cons_append, readValue_scalar fuel start, read]

theorem readBack_str (s : String) : ReadBack (.str s) :=
  .of_succ fun depth fuel rest hf _ => by
    have size := length_le_flatMap_charText s.toList
    rw [indentedAt_str, toList_stringText] at hf ⊢
    simp only [List.length_append, List.length_cons] at hf
    have chars := readChars_text s.toList rest fuel (by omega)
    simp [readValue_quote, chars, bind, Except.bind]

theorem readBack_arr {items : List Json} (plain : ∀ v ∈ items, v.Plain p)
    (back : ∀ v ∈ items, v.ReadBack) : ReadBack (.arr items) :=
  .of_succ fun depth fuel rest hf _ => by
    by_cases empty : items = []
    · subst empty
      simp [indentedAt_arr_nil, readValue_arr_nil]
    · rw [toList_arr depth empty] at hf ⊢
      simp only [List.length_append, List.length_cons] at hf
      have read := readItems_indentedItems empty plain back (depth + 1) depth fuel rest
        (by omega)
      have start := (startsPart_items empty plain (depth + 1)).append
        ((newline depth).toList ++ ']' :: rest)
      have skip := (skipSpace_newline (depth + 1) _).trans (skipSpace_of_starts start)
      simpa using readValue_arr skip start read

theorem readBack_obj {fields : List (String × Json)} (distinct : (fields.map Prod.fst).Nodup)
    (plain : ∀ field ∈ fields, field.2.Plain p) (back : ∀ field ∈ fields, field.2.ReadBack) :
    ReadBack (.obj fields) :=
  .of_succ fun depth fuel rest hf _ => by
    by_cases empty : fields = []
    · subst empty
      simp [indentedAt_obj_nil, readValue_obj_nil]
    · rw [toList_obj depth empty] at hf ⊢
      simp only [List.length_append, List.length_cons] at hf
      have read := readFields_indentedFields empty plain back (depth + 1) depth fuel rest
        (by omega)
      have start := (startsPart_fields empty (depth + 1)).append
        ((newline depth).toList ++ '\x7d' :: rest)
      rw [← ofFields_of_nodup distinct]
      have skip := (skipSpace_newline (depth + 1) _).trans (skipSpace_of_starts start)
      simpa using readValue_obj skip start read

/-- A plain value is read back from its text, whatever follows that does not go on with a number. -/
theorem Plain.readBack {v : Json} (h : v.Plain p) : v.ReadBack := by
  induction h with
  | null => exact readBack_null
  | bool b => exact readBack_bool b
  | int h => exact readBack_int h
  | str s => exact readBack_str s
  | arr plain back => exact readBack_arr plain back
  | obj distinct _ plain back => exact readBack_obj distinct plain back

/-- The text of a value over several lines, with a line break at its end, is read as the value. -/
theorem read_indented {v : Json} (h : v.Plain p) : read (v.indented ++ "\n") = .ok v := by
  have start := (h.startsPart 0).append ['\n']
  have back := h.readBack 0 ((indentedAt 0 v).toList.length + 1 + 1) ['\n'] (by omega)
    (.cons _ (by decide))
  have stop : skipSpace ['\n'] = [] := rfl
  simp [read, indented, skipSpace_of_starts start, back, stop, bind, Except.bind]

end UpdateDispatch.Json
