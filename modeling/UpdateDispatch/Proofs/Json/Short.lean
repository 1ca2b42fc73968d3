import UpdateDispatch.Proofs.Json.Fields
import UpdateDispatch.Json.Reader
import UpdateDispatch.Settings.Environment
import Mathlib.Data.List.Induction
import Mathlib.Data.List.TakeDrop
import Mathlib.Data.List.TakeWhile
import Mathlib.Data.Nat.Digits.Defs

/-!
# Values with short numbers

The reader refuses whole numbers of more than `maxDigits` digits, and the printer's texts of them
could not be read. So all whole numbers of a value that was read are short (`short_read`), and
they stay short when keys are changed, fields are set and objects are merged: no number is made
by that.
-/

namespace UpdateDispatch.Json

/-- A value all of whose whole numbers have a text that is read. -/
inductive Short : Json → Prop where
  | null : Short .null
  | bool (b : Bool) : Short (.bool b)
  | int {n : Int} (h : (Nat.toDigits 10 n.natAbs).length ≤ maxDigits) : Short (.int n)
  | float (x : Double) : Short (.float x)
  | str (s : String) : Short (.str s)
  | arr {items : List Json} (h : ∀ v ∈ items, Short v) : Short (.arr items)
  | obj {fields : List (String × Json)} (h : ∀ field ∈ fields, Short field.2) :
      Short (.obj fields)

/-! ## Numbers -/

theorem short_of_natAbs_lt {n : Int} {k : Nat} (h : n.natAbs < 10 ^ k) (hk : k ≤ maxDigits) :
    Short (.int n) :=
  .int ((Nat.length_toDigits_le_iff (by decide) (by decide)).mpr
    (h.trans_le (Nat.pow_le_pow_right (by decide) hk)))

theorem digitsValue_concat (ds : List Char) (d : Char) :
    digitsValue (ds ++ [d]) = digitsValue ds * 10 + (d.toNat - '0'.toNat) := by
  simp [digitsValue]

/-- Digits write a number below the power of ten that they reach. -/
theorem digitsValue_lt {ds : List Char} (h : ∀ d ∈ ds, d.isDigit = true) :
    digitsValue ds < 10 ^ ds.length := by
  induction ds using List.reverseRecOn with
  | nil => decide
  | append_singleton ds d ih =>
    have front := ih fun c hc => h c (List.mem_append_left _ hc)
    have last : d.toNat ≤ '9'.toNat :=
      (Char.isDigit_iff_toNat.mp (h d (List.mem_append_right _ List.mem_cons_self))).2
    have nine : '9'.toNat = '0'.toNat + 9 := rfl
    rw [digitsValue_concat, List.length_append, List.length_singleton, Nat.pow_succ]
    omega

/-- Digits write a short number if there are not too many of them. -/
theorem short_digitsValue {ds : List Char} {n : Int} (h : ∀ d ∈ ds, d.isDigit = true)
    (hlen : ds.length ≤ maxDigits) (hn : n.natAbs = digitsValue ds) : Short (.int n) :=
  short_of_natAbs_lt (hn ▸ digitsValue_lt h) hlen

theorem isDigit_of_mem_span {cs : List Char} :
    ∀ d ∈ (cs.span Char.isDigit).1, d.isDigit = true := by
  intro d hd
  rw [List.span_eq_takeWhile_dropWhile] at hd
  exact List.mem_takeWhile_imp hd

/-! ## Reading -/

variable {v : Json} {cs rest : List Char}

theorem short_readUnsigned {negative : Bool} (h : readUnsigned negative cs = .ok (v, rest)) :
    v.Short := by
  unfold readUnsigned at h
  dsimp only at h
  split at h
  · cases h
  · next ds _ whole =>
    have digits : ∀ d ∈ ds, d.isDigit = true := by
      split at whole
      · cases whole
        exact List.forall_mem_singleton.mpr rfl
      · split at whole
        · cases whole
        · cases whole
          exact isDigit_of_mem_span
    split at h
    · cases h
      exact .float _
    · split at h
      · cases h
      · next short =>
        cases h
        refine short_digitsValue digits (Nat.not_lt.mp short) ?_
        split <;> simp

theorem short_readNumber (h : readNumber cs = .ok (v, rest)) : v.Short := by
  unfold readNumber at h
  split at h
  · split at h
    · cases h
      exact .float _
    · exact short_readUnsigned h
  · exact short_readUnsigned h

theorem short_readScalar (h : readScalar cs = .ok (v, rest)) : v.Short := by
  unfold readScalar at h
  split at h
  · cases h
    exact .null
  split at h
  · cases h
    exact .bool true
  split at h
  · cases h
    exact .bool false
  split at h
  · cases h
    exact .float _
  split at h
  · cases h
    exact .float _
  · exact short_readNumber h

theorem Short.set {fields : List (String × Json)} (h : (Json.obj fields).Short) (name : String)
    (hv : v.Short) : (Json.obj (Named.set name v fields)).Short := by
  obtain - | - | - | - | - | - | values := h
  refine .obj fun field hf => ?_
  obtain rfl | before := Named.mem_set hf
  · exact hv
  · exact values field before

theorem Short.of_find? {fields : List (String × Json)} (h : (Json.obj fields).Short)
    {name : String} (hfind : Named.find? name fields = some v) : v.Short := by
  obtain - | - | - | - | - | - | values := h
  exact values _ (Named.mem_of_find?_eq_some hfind)

theorem Short.getD {fields : List (String × Json)} (h : (Json.obj fields).Short) (name : String)
    {default : Json} (hdefault : default.Short) :
    ((Named.find? name fields).getD default).Short := by
  cases hfind : Named.find? name fields with
  | none => exact hdefault
  | some v => exact h.of_find? hfind

theorem short_ofFields {fields : List (String × Json)} (h : ∀ field ∈ fields, field.2.Short) :
    (ofFields fields).Short :=
  List.foldlRecOn fields _ (motive := fun set : List (String × Json) => (Json.obj set).Short)
    (.obj (List.forall_mem_nil _)) fun _ ih field mem => ih.set field.1 (h field mem)

/-- What the readers give with so much fuel has short numbers only. -/
structure ReadsShort (fuel : Nat) : Prop where
  value : ∀ {cs v rest}, readValue fuel cs = .ok (v, rest) → v.Short
  items : ∀ {cs vs rest}, readItems fuel cs = .ok (vs, rest) → ∀ v ∈ vs, v.Short
  fields : ∀ {cs fields rest}, readFields fuel cs = .ok (fields, rest) →
    ∀ field ∈ fields, field.2.Short

theorem ReadsShort.zero : ReadsShort 0 where
  value h := by simp [readValue] at h
  items h := by simp [readItems] at h
  fields h := by simp [readFields] at h

variable {fuel : Nat}

theorem ReadsShort.readValue_succ (h : ReadsShort fuel)
    (hread : readValue (fuel + 1) cs = .ok (v, rest)) : v.Short := by
  unfold readValue at hread
  split at hread
  · obtain ⟨_, -, hs⟩ := exists_of_bind_eq_ok hread
    cases hs
    exact .str _
  · split at hread
    · cases hread
      exact .arr (List.forall_mem_nil _)
    · obtain ⟨_, hitems, hv⟩ := exists_of_bind_eq_ok hread
      cases hv
      exact .arr (h.items hitems)
  · split at hread
    · cases hread
      exact .obj (List.forall_mem_nil _)
    · obtain ⟨_, hfields, hv⟩ := exists_of_bind_eq_ok hread
      cases hv
      exact short_ofFields (h.fields hfields)
  · exact short_readScalar hread

theorem ReadsShort.readItems_succ (h : ReadsShort fuel) {vs : List Json}
    (hread : readItems (fuel + 1) cs = .ok (vs, rest)) : ∀ v ∈ vs, v.Short := by
  obtain ⟨⟨v, _⟩, hv, hmore⟩ := exists_of_bind_eq_ok hread
  dsimp only at hmore
  split at hmore
  · cases hmore
    exact List.forall_mem_singleton.mpr (h.value hv)
  · obtain ⟨_, hvs, heq⟩ := exists_of_bind_eq_ok hmore
    cases heq
    exact List.forall_mem_cons.mpr ⟨h.value hv, h.items hvs⟩
  · cases hmore

theorem ReadsShort.readFields_succ (h : ReadsShort fuel) {fields : List (String × Json)}
    (hread : readFields (fuel + 1) cs = .ok (fields, rest)) :
    ∀ field ∈ fields, field.2.Short := by
  unfold readFields at hread
  split at hread
  · obtain ⟨⟨key, _⟩, -, hread⟩ := exists_of_bind_eq_ok hread
    dsimp only at hread
    split at hread
    · obtain ⟨⟨v, _⟩, hv, hmore⟩ := exists_of_bind_eq_ok hread
      dsimp only at hmore
      split at hmore
      · cases hmore
        exact List.forall_mem_singleton.mpr (h.value hv)
      · obtain ⟨_, hfields, heq⟩ := exists_of_bind_eq_ok hmore
        cases heq
        exact List.forall_mem_cons.mpr ⟨h.value hv, h.fields hfields⟩
      · cases hmore
    · cases hread
  · cases hread

theorem readsShort (fuel : Nat) : ReadsShort fuel := by
  induction fuel with
  | zero => exact .zero
  | succ fuel ih => exact ⟨ih.readValue_succ, ih.readItems_succ, ih.readFields_succ⟩

/-- A value that was read has short numbers only. -/
theorem short_read {text : String} (h : read text = .ok v) : v.Short := by
  obtain ⟨⟨w, _⟩, hw, h⟩ := exists_of_bind_eq_ok h
  dsimp only at h
  split at h
  · cases h
    exact (readsShort _).value hw
  · cases h

/-! ## Changed values -/

theorem Short.mapKeys (f : String → String) (h : v.Short) : (mapKeys f v).Short := by
  induction h with
  | null => simpa [Json.mapKeys] using Short.null
  | bool b => simpa [Json.mapKeys] using Short.bool b
  | int h => simpa [Json.mapKeys] using Short.int h
  | float x => simpa [Json.mapKeys] using Short.float x
  | str s => simpa [Json.mapKeys] using Short.str s
  | arr _ ih =>
    rw [Json.mapKeys, mapKeysItems_eq_map]
    exact .arr (List.forall_mem_map.mpr ih)
  | obj _ ih =>
    rw [Json.mapKeys, mapKeysFields_eq_map]
    exact short_ofFields (List.forall_mem_map.mpr ih)

theorem short_mergeFields {fields lower : List (String × Json)}
    (hmerge : ∀ field ∈ fields, ∀ old : Json, old.Short → (mergeOver old field.2).Short)
    (h : ∀ field ∈ fields, field.2.Short) (hlower : (Json.obj lower).Short) :
    (Json.obj (mergeFields lower fields)).Short := by
  induction fields generalizing lower with
  | nil => exact hlower
  | cons field fields ih =>
    obtain ⟨hfirst, hrest⟩ := List.forall_mem_cons.mp hmerge
    obtain ⟨hv, h⟩ := List.forall_mem_cons.mp h
    refine ih hrest h (hlower.set _ ?_)
    split
    · next hfind => exact hfirst _ (hlower.of_find? hfind)
    · exact hv

theorem Short.mergeOver {lower : Json} (h : v.Short) (hlower : lower.Short) :
    (mergeOver lower v).Short := by
  induction h generalizing lower with
  | obj h ih =>
    unfold Json.mergeOver
    split
    · exact short_mergeFields (fun field hf _ => ih field hf) h hlower
    · exact .obj h
  | null => exact .null
  | bool b => exact .bool b
  | int h => exact .int h
  | float x => exact .float x
  | str s => exact .str s
  | arr h => exact .arr h

theorem Short.mergeFields {lower fields : List (String × Json)} (hlower : (Json.obj lower).Short)
    (h : (Json.obj fields).Short) : (Json.obj (mergeFields lower fields)).Short :=
  h.mergeOver hlower

theorem Short.setPath {fields : List (String × Json)} (path : List String) (hv : v.Short)
    (h : (Json.obj fields).Short) : (Json.obj (setPath path v fields)).Short := by
  fun_induction Json.setPath path v fields with
  | case1 => exact h
  | case2 => exact h.set _ hv
  | case3 fields name more _ inner hinner ih =>
    refine h.set name (ih ?_)
    rw [← hinner]
    exact h.getD name (.obj (List.forall_mem_nil _))
  | case4 => exact h

end UpdateDispatch.Json
