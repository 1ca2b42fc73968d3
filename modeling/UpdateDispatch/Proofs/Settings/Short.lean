import UpdateDispatch.Proofs.Json.Short
import UpdateDispatch.Proofs.Settings.Loading
import UpdateDispatch.Proofs.Settings.Validation

/-!
# Settings with a short number

The only whole number in settings is that of the identity. It is short whenever the settings come
from outside: the numbers of a file and of the values in an environment were read
(`Json.short_read`), doubles and flags are whole numbers within narrow bounds, and a text is only
read as a number if it is no longer than the longest number (`short_of_ofFields`).
-/

namespace UpdateDispatch

open Json (short_of_natAbs_lt)

namespace Settings

/-! ## Whole numbers -/

theorem natAbs_lt_of_doubleInteger {x : Double} {n : Int} (h : doubleInteger x = .ok n) :
    n.natAbs < 10 ^ 19 := by
  have bound : wideBound.natAbs < 10 ^ 19 := by decide
  unfold doubleInteger at h
  split at h
  · cases h
  · cases h
  · split at h
    · cases h
    · split at h
      · cases h
        omega
      · cases h

theorem groupedDigits?_digits {cs ds : List Char} (h : groupedDigits? cs = some ds) :
    ds.length ≤ cs.length ∧ ∀ d ∈ ds, d.isDigit = true := by
  fun_induction groupedDigits? cs generalizing ds with
  | case1 | case3 | case4 => cases h
  | case2 c hc =>
    cases h
    exact ⟨Nat.le_refl _, List.forall_mem_singleton.mpr hc⟩
  | case5 c rest hc ih =>
    obtain ⟨ds, hds, rfl⟩ := Option.map_eq_some_iff.mp h
    obtain ⟨hlen, digits⟩ := ih hds
    refine ⟨?_, List.forall_mem_cons.mpr ⟨by simpa using hc, digits⟩⟩
    simp only [List.length_cons]
    omega
  | case6 c d rest hc hd ih =>
    obtain ⟨ds, hds, rfl⟩ := Option.map_eq_some_iff.mp h
    obtain ⟨hlen, digits⟩ := ih hds
    exact ⟨Nat.succ_le_succ hlen, List.forall_mem_cons.mpr ⟨by simpa using hc, digits⟩⟩

theorem lt_of_unsigned? {cs : List Char} {n : Nat} (h : unsigned? cs = some n) :
    n < 10 ^ cs.length := by
  unfold unsigned? at h
  dsimp only at h
  split at h
  · obtain ⟨ds, hds, rfl⟩ := Option.map_eq_some_iff.mp h
    obtain ⟨hlen, digits⟩ := groupedDigits?_digits hds
    have hspan : (cs.span (· != '.')).1.length ≤ cs.length := by
      rw [List.span_eq_takeWhile_dropWhile]
      exact (List.takeWhile_prefix _).length_le
    exact (Json.digitsValue_lt digits).trans_le
      (Nat.pow_le_pow_right (by decide) (hlen.trans hspan))
  · cases h

theorem natAbs_lt_of_wholeNumber? {cs : List Char} {n : Int} (h : wholeNumber? cs = some n) :
    n.natAbs < 10 ^ cs.length := by
  have unsigned : ∀ {rest : List Char} {m : Int}, ((unsigned? rest).bind fun k => pure (k : Int)) =
      some m → m.natAbs < 10 ^ rest.length := fun hm => by
    obtain ⟨k, hk, heq⟩ := Option.bind_eq_some_iff.mp hm
    cases heq
    exact lt_of_unsigned? hk
  unfold wholeNumber? at h
  split at h <;> obtain ⟨m, hm, rfl⟩ := Option.map_eq_some_iff.mp h
  · rw [Int.natAbs_neg]
    exact (unsigned hm).trans (Nat.pow_lt_pow_succ (by decide))
  · exact (unsigned hm).trans (Nat.pow_lt_pow_succ (by decide))
  · exact unsigned hm

theorem short_of_integer {v w : Json} (hv : v.Short) (h : integer v = .ok w) : w.Short := by
  unfold integer at h
  split at h
  · cases h
    exact hv
  · cases h
    refine short_of_natAbs_lt (k := 1) ?_ (by decide)
    split <;> decide
  · next x =>
    cases hx : doubleInteger x with
    | error cause => simp [hx, Except.map] at h
    | ok n =>
      simp only [hx, Except.map] at h
      cases h
      exact short_of_natAbs_lt (natAbs_lt_of_doubleInteger hx) (by decide)
  · dsimp only at h
    split at h
    · cases h
    · next hlen =>
      split at h
      · next hn =>
        cases h
        exact short_of_natAbs_lt (natAbs_lt_of_wholeNumber? hn) (Nat.not_lt.mp hlen)
      · cases h
  · cases h

end Settings

/-! ## Validation -/

/-- An identity whose number is short enough to be written and read as text. -/
def Identity.Short (i : Identity) : Prop := i.id.Short

theorem Identity.short_of_validate {place : String} {v : Json} {i : Identity}
    (h : Identity.validate place v = .ok i) (hv : v.Short) : i.Short := by
  cases v with
  | obj fields =>
    obtain ⟨v, hfind, rule⟩ := Identity.integer_of_validate h
    exact Settings.short_of_integer (hv.of_find? hfind) rule
  | _ => cases h

namespace Settings

/-- Settings whose identity, if there is one, has a short number. -/
def Short (s : Settings) : Prop := ∀ i ∈ s.identity, i.Short

variable {s : Settings}

theorem short_of_validate {fields : List (String × Json)} (h : validate fields = .ok s)
    (hfields : (Json.obj fields).Short) : s.Short := by
  intro i hi
  obtain ⟨v, hfind, hv⟩ := identity_of_validate h i hi
  exact Identity.short_of_validate hv (hfields.of_find? hfind)

/-! ## Environments -/

theorem short_lowered (env : Environment) : (Json.obj env.lowered).Short :=
  List.foldlRecOn env _ (motive := fun vars : List (String × Json) => (Json.obj vars).Short)
    (.obj (List.forall_mem_nil _)) fun _ ih entry _ => ih.set _ (.str entry.2)

theorem short_partsOf {vars : List (String × Json)} (name : String)
    (h : (Json.obj vars).Short) : (Json.obj (partsOf name vars)).Short := by
  obtain - | - | - | - | - | - | values := h
  refine List.foldlRecOn vars _
    (motive := fun parts : List (String × Json) => (Json.obj parts).Short)
    (.obj (List.forall_mem_nil _)) fun parts ih field mem => ?_
  dsimp only
  split
  · exact .setPath _ (values field mem) ih
  · exact ih

theorem short_variableValue {v : Json} (h : v.Short) : (variableValue v).Short := by
  unfold variableValue
  split
  · split
    · next hread => exact Json.short_read hread
    · exact h
  · exact h

theorem short_recordField {vars : List (String × Json)} (name : String)
    (h : (Json.obj vars).Short) : (recordField name vars).Short := by
  have parts := short_partsOf name h
  unfold recordField
  dsimp only
  split
  · split
    · exact .null
    · exact parts
  · next hfind =>
    have value := short_variableValue (h.of_find? hfind)
    split
    · next heq => exact .mergeFields (heq ▸ value) parts
    · exact value

/-- The fields that an environment gives have short numbers only. -/
theorem short_fields (env : Environment) : (Json.obj env.fields).Short := by
  have lowered := short_lowered env
  refine .obj fun field hf => ?_
  have hmem := List.mem_of_mem_filter hf
  simp only [List.mem_cons, List.not_mem_nil, or_false] at hmem
  rcases hmem with rfl | rfl | rfl | rfl
  · exact short_recordField _ lowered
  · exact short_recordField _ lowered
  · exact lowered.getD _ .null
  · exact lowered.getD _ .null

/-! ## Settings from outside -/

variable {env : Environment}

theorem validate_of_ofFields {given : List (String × Json)} (h : ofFields env given = .ok s) :
    validate (Json.mergeFields env.fields given) = .ok s := by
  unfold ofFields at h
  split at h
  · next valid =>
    cases h
    exact valid
  · cases h

theorem short_of_ofFields {given : List (String × Json)} (h : ofFields env given = .ok s)
    (hgiven : (Json.obj given).Short) : s.Short :=
  short_of_validate (validate_of_ofFields h) ((short_fields env).mergeFields hgiven)

/-- Settings that come from a file and an environment are those of fields with short numbers. -/
theorem exists_fields_of_load {content : Option ByteArray} {rejected : Bool}
    (h : load env content = .ok (s, rejected)) :
    ∃ given, (Json.obj given).Short ∧ ofFields env given = .ok s := by
  have outcome : (loaded env content).outcome = .ok s := by
    unfold load at h
    cases ho : (loaded env content).outcome with
    | error fault => simp [ho, Except.map] at h
    | ok t =>
      simp only [ho, Except.map] at h
      cases h
      rfl
  cases content with
  | none => exact ⟨[], .obj (List.forall_mem_nil _), outcome⟩
  | some content =>
    obtain ⟨t, accepted⟩ | rejected := accepted_or_rejected env content
    · rw [loaded, ofFile?_of_accepted accepted] at outcome
      cases outcome
      obtain ⟨text, given, fields, -, value, names, valid⟩ := accepted
      exact ⟨fields, names ▸ (Json.short_read value).mapKeys _, valid⟩
    · rw [loaded, ofFile?_of_rejected rejected] at outcome
      exact ⟨[], .obj (List.forall_mem_nil _), outcome⟩

end Settings
end UpdateDispatch
