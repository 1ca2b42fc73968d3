import UpdateDispatch.Named

/-!
# Named values and computations that may fail

What all of the theory uses: which values a name finds in a list of named values, what setting a
name changes, and what is known when two computations in a row have succeeded.
-/

namespace UpdateDispatch

theorem exists_of_bind_eq_ok {ε α β : Type} {e : Except ε α} {k : α → Except ε β} {b : β}
    (h : e >>= k = .ok b) : ∃ a, e = .ok a ∧ k a = .ok b := by
  cases e with
  | error f => cases h
  | ok a => exact ⟨a, rfl, h⟩

/-- A computation that gives a value for every item of a list gives the list of these values. -/
theorem mapM_ok {ε α β : Type} (f : α → Except ε β) (g : α → β) {items : List α}
    (h : ∀ item ∈ items, f item = .ok (g item)) : items.mapM f = .ok (items.map g) := by
  induction items with
  | nil => rfl
  | cons item rest ih =>
    rw [List.forall_mem_cons] at h
    rw [List.mapM_cons, h.1, ih h.2]
    rfl

namespace Named

variable {α : Type} {name : String} {value : α}

/-! ## Finding -/

theorem mem_of_find?_eq_some {table : List (String × α)} (h : find? name table = some value) :
    (name, value) ∈ table := by
  induction table with
  | nil => cases h
  | cons entry rest ih =>
    unfold find? at h
    split at h
    · next hkey =>
      obtain rfl : entry.2 = value := Option.some.inj h
      rw [← hkey]
      exact List.mem_cons_self
    · exact List.mem_cons_of_mem entry (ih h)

theorem find?_eq_some_of_mem {table : List (String × α)} (hkeys : (table.map Prod.fst).Nodup)
    (h : (name, value) ∈ table) : find? name table = some value := by
  induction table with
  | nil => cases h
  | cons entry rest ih =>
    rw [List.map_cons, List.nodup_cons] at hkeys
    unfold find?
    rcases List.mem_cons.mp h with rfl | hrest
    · exact if_pos rfl
    · rw [if_neg, ih hkeys.2 hrest]
      intro hkey
      exact hkeys.1 (List.mem_map.mpr ⟨_, hrest, hkey.symm⟩)

theorem find?_of_not_mem {fields : List (String × α)} (h : name ∉ fields.map Prod.fst) :
    find? name fields = none := by
  induction fields with
  | nil => rfl
  | cons field fields ih =>
    obtain ⟨key, value⟩ := field
    obtain ⟨ne, rest⟩ : name ≠ key ∧ name ∉ fields.map Prod.fst := by simpa using h
    simp [find?, ne.symm, ih rest]

/-! ## Setting -/

/-- A new name goes to the end. -/
theorem set_of_not_mem (value : α) {fields : List (String × α)}
    (h : name ∉ fields.map Prod.fst) : set name value fields = fields ++ [(name, value)] := by
  induction fields with
  | nil => rfl
  | cons field fields ih =>
    obtain ⟨key, old⟩ := field
    obtain ⟨ne, rest⟩ : name ≠ key ∧ name ∉ fields.map Prod.fst := by simpa using h
    simp [set, ne.symm, ih rest]

/-- A field that is there after a name was set is what was set, or was there before. -/
theorem mem_set {fields : List (String × α)} {field : String × α}
    (h : field ∈ set name value fields) : field = (name, value) ∨ field ∈ fields := by
  induction fields with
  | nil => exact .inl (List.mem_singleton.mp h)
  | cons first fields ih =>
    obtain ⟨key, old⟩ := first
    unfold set at h
    split at h
    · next same =>
      subst same
      exact (List.mem_cons.mp h).imp_right (List.mem_cons_of_mem _)
    · obtain rfl | later := List.mem_cons.mp h
      · exact .inr List.mem_cons_self
      · exact (ih later).imp_right (List.mem_cons_of_mem _)

/-- Of fields with distinct names, no earlier one has the name of a later one. -/
theorem not_mem_of_nodup {base fields : List (String × α)} {field : String × α}
    (h : ((base ++ field :: fields).map Prod.fst).Nodup) : field.1 ∉ base.map Prod.fst := by
  rw [List.map_append, List.map_cons, List.nodup_append] at h
  exact fun mem => h.2.2 _ mem _ List.mem_cons_self rfl

end Named
end UpdateDispatch
