import UpdateDispatch.Proofs.Json.Fields
import Mathlib

/-!
# Changing keys twice

Two changes of all keys, one after the other, are one change (`mapKeys_comp`), unless keys that the
first change keeps apart fall together in the second. Keys that fall together in the first change
already are no obstacle: of such fields the last value counts either way.

`Apart` says that no keys of an object fall together at all. A value that is equal to itself with
changed keys, up to the order of fields, has only keys that do not change (`Keyed.of_same`), if the
change is idempotent.
-/

namespace UpdateDispatch

namespace Named

variable {α β : Type} {name : String}

/-- Setting a name keeps it where it is, or adds it at the end. -/
theorem keys_set (name : String) (value : α) (fields : List (String × α)) :
    (set name value fields).map Prod.fst =
      if name ∈ fields.map Prod.fst then fields.map Prod.fst
      else fields.map Prod.fst ++ [name] := by
  induction fields with
  | nil => simp [set]
  | cons field fields ih =>
    obtain ⟨key, old⟩ := field
    by_cases same : key = name
    · simp [set, same]
    · have other : ¬name = key := fun h => same h.symm
      by_cases mem : name ∈ fields.map Prod.fst
      · simp only [set, if_neg same, List.map_cons, ih, List.mem_cons, mem, or_true, if_true]
      · simp only [set, if_neg same, List.map_cons, ih, List.mem_cons, other, mem, or_self,
          if_false, List.cons_append]

theorem mem_keys_set {name key : String} {value : α} {fields : List (String × α)} :
    key ∈ (set name value fields).map Prod.fst ↔ key ∈ fields.map Prod.fst ∨ key = name := by
  rw [keys_set]
  split_ifs with mem
  · refine (or_iff_left_of_imp ?_).symm
    rintro rfl
    exact mem
  · rw [List.mem_append, List.mem_singleton]

theorem nodup_set (name : String) (value : α) {fields : List (String × α)}
    (h : (fields.map Prod.fst).Nodup) : ((set name value fields).map Prod.fst).Nodup := by
  rw [keys_set]
  split_ifs with mem
  · exact h
  · exact List.nodup_append.mpr ⟨h, List.nodup_singleton name, by
      rintro k hk _ hn rfl
      exact mem (List.mem_singleton.mp hn ▸ hk)⟩

/-- Names and values changed one by one, before or after a name is set. -/
theorem map_set (f : String → String) (g : α → β) (name : String) (value : α)
    {fields : List (String × α)} (apart : ∀ k ∈ fields.map Prod.fst, f k = f name → k = name) :
    (set name value fields).map (Prod.map f g) =
      set (f name) (g value) (fields.map (Prod.map f g)) := by
  induction fields with
  | nil => rfl
  | cons field fields ih =>
    obtain ⟨key, old⟩ := field
    obtain ⟨first, rest⟩ := List.forall_mem_cons.mp apart
    by_cases same : key = name
    · simp [set, same]
    · have other : f key ≠ f name := fun h => same (first h)
      simp [set, same, other, ih rest]

end Named
namespace Json

/-! ## Fields set one after the other -/

/-- Fields set one after the other. -/
def setFields (base fields : List (String × Json)) : List (String × Json) :=
  fields.foldl (fun acc field => Named.set field.1 field.2 acc) base

theorem ofFields_eq (fields : List (String × Json)) :
    ofFields fields = .obj (setFields [] fields) := rfl

theorem nodup_setFields (base fields : List (String × Json))
    (h : (base.map Prod.fst).Nodup) : ((setFields base fields).map Prod.fst).Nodup := by
  induction fields generalizing base with
  | nil => exact h
  | cons field fields ih => exact ih _ (Named.nodup_set _ _ h)

/-- Fields that were set have names that were there or were set. -/
theorem subset_setFields (base fields : List (String × Json)) :
    (setFields base fields).map Prod.fst ⊆ base.map Prod.fst ++ fields.map Prod.fst := by
  induction fields generalizing base with
  | nil => simp [setFields]
  | cons field fields ih =>
    intro k hk
    have mem := ih (Named.set field.1 field.2 base) hk
    rwa [List.mem_append, Named.mem_keys_set, or_assoc, ← List.mem_cons, ← List.mem_append] at mem

/-- Fields changed one by one, before or after they are set. -/
theorem map_setFields (f : String → String) (g : Json → Json)
    (base fields : List (String × Json))
    (apart : ∀ k ∈ base.map Prod.fst ++ fields.map Prod.fst,
      ∀ l ∈ fields.map Prod.fst, f k = f l → k = l) :
    (setFields base fields).map (Prod.map f g) =
      setFields (base.map (Prod.map f g)) (fields.map (Prod.map f g)) := by
  induction fields generalizing base with
  | nil => rfl
  | cons field fields ih =>
    have first : (Named.set field.1 field.2 base).map (Prod.map f g) =
        Named.set (f field.1) (g field.2) (base.map (Prod.map f g)) :=
      Named.map_set f g field.1 field.2 fun k hk =>
        apart k (List.mem_append_left _ hk) field.1 List.mem_cons_self
    rw [List.map_cons]
    refine (ih _ fun k hk l hl => ?_).trans (congrArg (setFields · _) first)
    refine apart k ?_ l (List.mem_cons_of_mem _ hl)
    rwa [List.mem_append, Named.mem_keys_set, or_assoc, ← List.mem_cons, ← List.mem_append] at hk

/-! ## Two changes of keys -/

variable {p : String → Prop} {f g : String → String} {v : Json}

theorem mapKeys_obj_eq (f : String → String) (fields : List (String × Json)) :
    mapKeys f (.obj fields) = .obj (setFields [] (fields.map (Prod.map f (mapKeys f)))) := by
  rw [mapKeys, mapKeysFields_eq_map, ofFields_eq]
  rfl

/-- Two changes of all keys are one, if the second keeps apart what the first does. -/
theorem mapKeys_comp (h : v.Keyed p)
    (apart : ∀ k l, p k → p l → g (f k) = g (f l) → f k = f l) :
    mapKeys g (mapKeys f v) = mapKeys (g ∘ f) v := by
  induction h with
  | null | bool | int | float | str => simp [mapKeys]
  | @arr items _ ih =>
    simp only [mapKeys, mapKeysItems_eq_map, List.map_map, arr.injEq]
    exact List.map_congr_left ih
  | @obj fields distinct keys _ ih =>
    have known : ∀ k ∈ (fields.map (Prod.map f (mapKeys f))).map Prod.fst, ∃ l, p l ∧ k = f l := by
      intro k hk
      simp only [List.mem_map, exists_exists_and_eq_and] at hk
      obtain ⟨field, hf, rfl⟩ := hk
      exact ⟨field.1, keys field hf, rfl⟩
    have set := map_setFields g (mapKeys g) [] (fields.map (Prod.map f (mapKeys f)))
      fun k hk l hl same => by
        obtain ⟨k, known_k, rfl⟩ := known k hk
        obtain ⟨l, known_l, rfl⟩ := known l hl
        exact apart k l known_k known_l same
    have both : (fields.map (Prod.map f (mapKeys f))).map (Prod.map g (mapKeys g)) =
        fields.map (Prod.map (g ∘ f) (mapKeys (g ∘ f))) := by
      rw [List.map_map]
      exact List.map_congr_left fun field hf => Prod.ext rfl (ih field hf)
    rw [mapKeys_obj_eq, mapKeys_obj_eq, mapKeys_obj_eq, set, both, List.map_nil]
    exact ofFields_of_nodup (nodup_setFields [] _ List.nodup_nil)

theorem mapKeys_congr (h : v.Keyed p) (same : ∀ k, p k → f k = g k) :
    mapKeys f v = mapKeys g v := by
  induction h with
  | null | bool | int | float | str => simp [mapKeys]
  | @arr items _ ih =>
    simp only [mapKeys, mapKeysItems_eq_map, arr.injEq]
    exact List.map_congr_left ih
  | @obj fields _ keys _ ih =>
    have fields_eq : fields.map (Prod.map f (mapKeys f)) = fields.map (Prod.map g (mapKeys g)) :=
      List.map_congr_left fun field hf => Prod.ext (same _ (keys field hf)) (ih field hf)
    rw [mapKeys_obj_eq, mapKeys_obj_eq, fields_eq]

theorem Keyed.imp {q : String → Prop} (h : v.Keyed p) (all : ∀ k, p k → q k) : v.Keyed q := by
  induction h with
  | null => exact .null
  | bool b => exact .bool b
  | int n => exact .int n
  | float x => exact .float x
  | str s => exact .str s
  | arr _ ih => exact .arr ih
  | obj distinct keys _ ih => exact .obj distinct (fun field hf => all _ (keys field hf)) ih

/-! ## Keys that stay apart -/

/-- No two keys of an object fall together when all keys are changed. -/
inductive Apart (f : String → String) : Json → Prop where
  | null : Apart f .null
  | bool (b : Bool) : Apart f (.bool b)
  | int (n : Int) : Apart f (.int n)
  | float (x : Double) : Apart f (.float x)
  | str (s : String) : Apart f (.str s)
  | arr {items : List Json} (h : ∀ v ∈ items, Apart f v) : Apart f (.arr items)
  | obj {fields : List (String × Json)} (distinct : (fields.map (f ∘ Prod.fst)).Nodup)
      (h : ∀ field ∈ fields, Apart f field.2) : Apart f (.obj fields)

theorem Keyed.apart (h : v.Keyed p) : v.Apart id := by
  induction h with
  | null => exact .null
  | bool b => exact .bool b
  | int n => exact .int n
  | float x => exact .float x
  | str s => exact .str s
  | arr _ ih => exact .arr ih
  | obj distinct _ _ ih => exact .obj distinct ih

/-- Keys that stay apart in one change do so in any change that makes no more of them equal. -/
theorem Apart.of_finer (h : v.Keyed p) (finer : ∀ k l, p k → p l → g k = g l → f k = f l)
    (apart : v.Apart f) : v.Apart g := by
  induction h with
  | null => exact .null
  | bool b => exact .bool b
  | int n => exact .int n
  | float x => exact .float x
  | str s => exact .str s
  | arr _ ih =>
    obtain - | - | - | - | - | inner := apart
    exact .arr fun v hv => ih v hv (inner v hv)
  | obj _ keys _ ih =>
    obtain - | - | - | - | - | - | ⟨distinct, inner⟩ := apart
    refine .obj ?_ fun field hf => ih field hf (inner field hf)
    rw [List.Nodup, List.pairwise_map] at distinct ⊢
    exact distinct.imp_of_mem fun hk hl differ same =>
      differ (finer _ _ (keys _ hk) (keys _ hl) same)

/-! ## Equal after a change -/

theorem sameItems_map {f : Json → Json} {items : List Json}
    (h : sameItems (items.map f) items = true) : ∀ v ∈ items, same (f v) v = true := by
  induction items with
  | nil => exact List.forall_mem_nil _
  | cons v items ih =>
    rw [List.map_cons, sameItems, Bool.and_eq_true] at h
    exact List.forall_mem_cons.mpr ⟨h.1, ih h.2⟩

theorem find?_of_sameFields {xs ys : List (String × Json)} (h : sameFields xs ys = true) :
    ∀ field ∈ xs, ∃ w, Named.find? field.1 ys = some w ∧ same field.2 w = true := by
  induction xs with
  | nil => exact List.forall_mem_nil _
  | cons field xs ih =>
    rw [sameFields, Bool.and_eq_true] at h
    refine List.forall_mem_cons.mpr ⟨?_, ih h.2⟩
    cases found : Named.find? field.1 ys with
    | none => simp [found] at h
    | some w => exact ⟨w, rfl, by simpa [found] using h.1⟩

/-- If fields come to as many as others when they are set, and have no names but those of the
others, they have all names of the others. -/
theorem mem_of_length_eq {fields changed : List (String × Json)}
    (size : (setFields [] changed).length = fields.length)
    (among : ∀ field ∈ setFields [] changed, field.1 ∈ fields.map Prod.fst) :
    ∀ field ∈ fields, field.1 ∈ changed.map Prod.fst := by
  have subset : (setFields [] changed).map Prod.fst ⊆ fields.map Prod.fst := by
    intro k hk
    obtain ⟨field, hf, rfl⟩ := List.mem_map.mp hk
    exact among field hf
  have perm := (List.subperm_of_subset (nodup_setFields [] changed List.nodup_nil) subset)
    |>.perm_of_length_le (by simp [size])
  intro field hf
  have mem := subset_setFields [] changed (perm.mem_iff.mpr (List.mem_map_of_mem hf))
  simpa using mem

/-- Names that are all images of an idempotent change do not change. -/
theorem fixed_of_subset {fields : List (String × Json)} (once : ∀ k, p k → f (f k) = f k)
    (keys : ∀ field ∈ fields, p field.1)
    (among : ∀ field ∈ fields, field.1 ∈ (fields.map (Prod.map f (mapKeys f))).map Prod.fst) :
    ∀ field ∈ fields, f field.1 = field.1 := by
  intro field hf
  obtain ⟨image, mem, name⟩ := List.mem_map.mp (among field hf)
  obtain ⟨source, hs, rfl⟩ := List.mem_map.mp mem
  rw [← name]
  exact once source.1 (keys source hs)

/-- A value that equals itself with changed keys has only keys that do not change. -/
theorem Keyed.of_same (h : v.Keyed p) (once : ∀ k, p k → f (f k) = f k)
    (equal : same (mapKeys f v) v = true) : v.Keyed fun k => p k ∧ f k = k := by
  induction h with
  | null => exact .null
  | bool b => exact .bool b
  | int n => exact .int n
  | float x => exact .float x
  | str s => exact .str s
  | @arr items _ ih =>
    rw [mapKeys, mapKeysItems_eq_map, same] at equal
    exact .arr fun v hv => ih v hv (sameItems_map equal v hv)
  | @obj fields distinct keys _ ih =>
    rw [mapKeys_obj_eq, same, Bool.and_eq_true, beq_iff_eq] at equal
    obtain ⟨size, found⟩ := equal
    have found := find?_of_sameFields found
    have fixed : ∀ field ∈ fields, f field.1 = field.1 :=
      fixed_of_subset once keys (mem_of_length_eq size fun field hf => by
        obtain ⟨w, hw, -⟩ := found field hf
        exact List.mem_map.mpr ⟨_, Named.mem_of_find?_eq_some hw, rfl⟩)
    refine .obj distinct (fun field hf => ⟨keys field hf, fixed field hf⟩) fun field hf => ?_
    have set : setFields [] (fields.map (Prod.map f (mapKeys f))) =
        fields.map (Prod.map f (mapKeys f)) := by
      refine foldl_set_of_nodup [] _ ?_
      have names : (fields.map (Prod.map f (mapKeys f))).map Prod.fst = fields.map Prod.fst := by
        rw [List.map_map]
        exact List.map_congr_left fixed
      rw [List.nil_append, names]
      exact distinct
    rw [set] at found
    obtain ⟨w, hw, equal⟩ := found _ (List.mem_map_of_mem hf)
    rw [Prod.map_fst, fixed field hf, Named.find?_eq_some_of_mem distinct hf] at hw
    cases Option.some.inj hw
    exact ih field hf equal

end Json
end UpdateDispatch
