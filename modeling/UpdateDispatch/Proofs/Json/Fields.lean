import UpdateDispatch.Proofs.Basic
import UpdateDispatch.Json.Basic
import UpdateDispatch.Settings.Keys
import Mathlib.Data.List.Nodup

/-!
# Fields with distinct keys

An object keeps the order of its fields and, of equal keys, the last value. When the keys are
distinct, nothing of this shows: setting the fields one after the other gives the fields
(`ofFields_of_nodup`), and changing all keys can be undone, as long as the second change takes each
key back that the first one made (`mapKeys_mapKeys`).
-/

namespace UpdateDispatch.Json

/-! ## Setting fields -/

/-- Distinct fields that are set one after the other are added to those that are there. -/
theorem foldl_set_of_nodup (base fields : List (String × Json))
    (h : ((base ++ fields).map Prod.fst).Nodup) :
    fields.foldl (fun acc field => Named.set field.1 field.2 acc) base = base ++ fields := by
  induction fields generalizing base with
  | nil => simp
  | cons field fields ih =>
    rw [List.foldl_cons, Named.set_of_not_mem field.2 (Named.not_mem_of_nodup h),
      ih _ (by simpa using h)]
    simp

/-- Fields with distinct keys are an object as they are. -/
theorem ofFields_of_nodup {fields : List (String × Json)} (h : (fields.map Prod.fst).Nodup) :
    ofFields fields = .obj fields :=
  congrArg Json.obj (foldl_set_of_nodup [] fields h)

/-! ## Changing keys -/

/-- A value whose objects have distinct keys, all of them with the property `p`. -/
inductive Keyed (p : String → Prop) : Json → Prop where
  | null : Keyed p .null
  | bool (b : Bool) : Keyed p (.bool b)
  | int (n : Int) : Keyed p (.int n)
  | float (x : Double) : Keyed p (.float x)
  | str (s : String) : Keyed p (.str s)
  | arr {items : List Json} (h : ∀ v ∈ items, Keyed p v) : Keyed p (.arr items)
  | obj {fields : List (String × Json)} (distinct : (fields.map Prod.fst).Nodup)
      (keys : ∀ field ∈ fields, p field.1) (h : ∀ field ∈ fields, Keyed p field.2) :
      Keyed p (.obj fields)

theorem mapKeysItems_eq_map (f : String → String) (items : List Json) :
    mapKeysItems f items = items.map (mapKeys f) := by
  induction items with
  | nil => rfl
  | cons v items ih => simp [mapKeysItems, ih]

theorem mapKeysFields_eq_map (f : String → String) (fields : List (String × Json)) :
    mapKeysFields f fields = fields.map fun field => (f field.1, mapKeys f field.2) := by
  induction fields with
  | nil => rfl
  | cons field fields ih => simp [mapKeysFields, ih]

variable {p : String → Prop} {f g : String → String}

/-- Keys that can be taken back stay distinct. -/
theorem nodup_mapKeysFields {fields : List (String × Json)} (back : ∀ k, p k → g (f k) = k)
    (distinct : (fields.map Prod.fst).Nodup) (keys : ∀ field ∈ fields, p field.1) :
    ((mapKeysFields f fields).map Prod.fst).Nodup := by
  have images : (mapKeysFields f fields).map Prod.fst = (fields.map Prod.fst).map f := by
    simp [mapKeysFields_eq_map]
  have known : ∀ k ∈ fields.map Prod.fst, p k := by
    intro k hk
    obtain ⟨field, hf, rfl⟩ := List.mem_map.mp hk
    exact keys field hf
  rw [images]
  refine distinct.map_on fun k hk l hl equal => ?_
  rw [← back k (known k hk), ← back l (known l hl), equal]

/-- The keys of an object are changed one by one, without any clash. -/
theorem mapKeys_obj {fields : List (String × Json)} (back : ∀ k, p k → g (f k) = k)
    (distinct : (fields.map Prod.fst).Nodup) (keys : ∀ field ∈ fields, p field.1) :
    mapKeys f (.obj fields) = .obj (fields.map fun field => (f field.1, mapKeys f field.2)) := by
  rw [mapKeys, ofFields_of_nodup (nodup_mapKeysFields back distinct keys), mapKeysFields_eq_map]

/-- A change of all keys is undone by one that takes each changed key back. -/
theorem mapKeys_mapKeys {v : Json} (back : ∀ k, p k → g (f k) = k) (h : v.Keyed p) :
    mapKeys g (mapKeys f v) = v := by
  induction h with
  | null | bool | int | float | str => simp [mapKeys]
  | @arr items _ ih =>
    have same : items.map (mapKeys g ∘ mapKeys f) = items :=
      (List.map_congr_left ih).trans (List.map_id items)
    simp only [mapKeys, mapKeysItems_eq_map, List.map_map, same]
  | @obj fields distinct keys _ ih =>
    have same :
        mapKeysFields g (fields.map fun field => (f field.1, mapKeys f field.2)) = fields := by
      rw [mapKeysFields_eq_map, List.map_map]
      refine (List.map_congr_left fun field hf => ?_).trans (List.map_id fields)
      exact Prod.ext (back _ (keys field hf)) (ih field hf)
    rw [mapKeys_obj back distinct keys, mapKeys, same, ofFields_of_nodup distinct]

end UpdateDispatch.Json
