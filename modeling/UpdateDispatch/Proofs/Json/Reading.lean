import UpdateDispatch.Json.Access

/-!
# Looking into objects

What access to the fields of an object gives, and when a value equals a text. A field that is
missing reads as null, so a field that is not null is there (`require_eq_field`), and only a missing
field gets the default of `getOr`, not one that is null (`getOr_cases`).
-/

namespace UpdateDispatch.Json

/-- A value with fields. -/
def IsObject (v : Json) : Prop := ∃ fields, v = .obj fields

variable {v w default : Json} {key s : String} {items : List Json}

/-! ## Null -/

theorem isNull_iff : v.isNull = true ↔ v = .null := by
  cases v with
  | null => exact ⟨fun _ => rfl, fun _ => rfl⟩
  | _ => constructor <;> rintro ⟨⟩

theorem isNull_eq_false_iff : v.isNull = false ↔ v ≠ .null := by
  rw [Ne, ← isNull_iff, Bool.not_eq_true]

theorem ne_null_of_truthy (counts : v.truthy = true) : v ≠ .null := by
  rintro rfl
  cases counts

/-! ## Fields -/

theorem field_null (key : String) : Json.null.field key = .null := rfl

theorem field_obj (fields : List (String × Json)) (key : String) :
    (Json.obj fields).field key = (Named.find? key fields).getD .null := rfl

theorem getOr_obj (fields : List (String × Json)) (key : String) (default : Json) :
    (Json.obj fields).getOr key default = .ok ((Named.find? key fields).getD default) := rfl

theorem IsObject.ne_null (object : v.IsObject) : v ≠ .null := by
  obtain ⟨fields, rfl⟩ := object
  simp

theorem get_eq_field (object : v.IsObject) (key : String) : v.get key = .ok (v.field key) := by
  obtain ⟨fields, rfl⟩ := object
  rfl

/-- A value with a field is an object. -/
theorem isObject_of_field (present : v.field key ≠ .null) : v.IsObject := by
  cases v with
  | obj fields => exact ⟨fields, rfl⟩
  | _ => exact absurd rfl present

theorem require_eq_field (present : v.field key ≠ .null) : v.require key = .ok (v.field key) := by
  obtain ⟨fields, rfl⟩ := isObject_of_field present
  cases found : Named.find? key fields with
  | none => exact absurd (by simp [field_obj, found]) present
  | some value => simp [require, field_obj, found]

/-- A field that is missing or null gets the default in the first case only. -/
theorem getOr_cases (object : v.IsObject) (key : String) (default : Json) :
    v.getOr key default = .ok (v.field key) ∨
      v.field key = .null ∧ v.getOr key default = .ok default := by
  obtain ⟨fields, rfl⟩ := object
  cases found : Named.find? key fields with
  | none => exact .inr ⟨by simp [field_obj, found], by simp [getOr_obj, found]⟩
  | some value => exact .inl (by simp [field_obj, getOr_obj, found])

theorem getOr_eq_field (present : v.field key ≠ .null) (default : Json) :
    v.getOr key default = .ok (v.field key) :=
  (getOr_cases (isObject_of_field present) key default).resolve_right fun missing =>
    present missing.1

/-- A value with a field that is there counts as true. -/
theorem truthy_of_field (present : v.field key ≠ .null) : v.truthy = true := by
  obtain ⟨fields, rfl⟩ := isObject_of_field present
  cases fields with
  | nil => exact absurd rfl present
  | cons => rfl

/-- An object, and what is null, read the same if null and the empty object are exchanged. -/
theorem orEmpty_get (object : v ≠ .null → v.IsObject) (key : String) :
    v.orEmpty.get key = .ok (v.field key) := by
  by_cases present : v = .null
  · subst present
    rfl
  · obtain ⟨fields, rfl⟩ := object present
    cases fields <;> rfl

/-! ## The first value that is there -/

theorem firstPresent_cons :
    firstPresent (v :: items) = if v.isNull then firstPresent items else v := rfl

theorem firstPresent_cons_of_ne_null (present : v ≠ .null) : firstPresent (v :: items) = v := by
  simp [firstPresent_cons, isNull_eq_false_iff.mpr present]

theorem firstPresent_null_pair (v : Json) : firstPresent [.null, v] = v := by
  cases v <;> rfl

theorem firstPresent_of_forall {p : Json → Prop} (of_null : p .null) (all : ∀ v ∈ items, p v) :
    p (firstPresent items) := by
  induction items with
  | nil => exact of_null
  | cons v rest ih =>
    rw [List.forall_mem_cons] at all
    rw [firstPresent_cons]
    split
    · exact ih all.2
    · exact all.1

theorem firstPresent_eq_null_iff : firstPresent items = .null ↔ ∀ v ∈ items, v = .null := by
  induction items with
  | nil => exact ⟨fun _ => List.forall_mem_nil _, fun _ => rfl⟩
  | cons v rest ih =>
    rw [firstPresent_cons, List.forall_mem_cons, ← ih]
    split
    · next isNull => simp [isNull_iff.mp isNull]
    · next present => simp [mt isNull_iff.mpr present]

/-! ## Texts -/

theorem same_str_str (s t : String) : (Json.str s).same (.str t) = (s == t) := rfl

theorem same_str_iff : (Json.str s).same v = true ↔ v = .str s := by
  cases v with
  | str t => rw [same_str_str, beq_iff_eq, Json.str.injEq, eq_comm]
  | _ => constructor <;> rintro ⟨⟩

theorem same_iff_eq_str : v.same (.str s) = true ↔ v = .str s := by
  cases v with
  | str t => rw [same_str_str, beq_iff_eq, Json.str.injEq]
  | _ => constructor <;> rintro ⟨⟩

theorem isIn_str_iff : (Json.str s).isIn items = true ↔ Json.str s ∈ items := by
  simp only [isIn, List.any_eq_true, same_str_iff, exists_eq_right]

theorem asKey_str (s : String) : (Json.str s).asKey = .ok (.str s) := rfl

end UpdateDispatch.Json
