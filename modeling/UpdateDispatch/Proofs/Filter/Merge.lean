import UpdateDispatch.Proofs.Filter.Denotation

/-!
# The merged tree of paths

The tree of a list of paths groups them by their first names, the rests below each name by theirs,
and so on. `find?_foldl_put` says what one level holds: under a name, the rests of the paths that
start with it. A path is maximal if it is no proper prefix of another one, and
`exists_maximal_iff` takes the maximal paths apart in the same way, level by level. So the test of
a tree, which asks for more at an inner node than at a leaf, is the test of the maximal paths:
`test_ofPaths_iff`.
-/

namespace UpdateDispatch.Filter

/-! ## One level of the tree -/

section Level

variable {α : Type} (empty : α) (add : α → List String → α)

/-- A table with one path put in: its rest is added to what stands under its first name. -/
def put (table : List (String × α)) : List String → List (String × α)
  | [] => table
  | name :: rest => upsert name empty (add · rest) table

theorem find?_upsert (name : String) (f : α → α) (table : List (String × α)) (other : String) :
    Named.find? other (upsert name empty f table) =
      if other = name then some (f ((Named.find? name table).getD empty))
      else Named.find? other table := by
  induction table with
  | nil =>
    by_cases h : other = name
    · simp [upsert, Named.find?, h]
    · simp [upsert, Named.find?, h, Ne.symm h]
  | cons entry rest ih =>
    by_cases hkey : entry.1 = name
    · by_cases h : other = name
      · simp [upsert, Named.find?, hkey, h]
      · simp [upsert, Named.find?, hkey, h, Ne.symm h]
    · by_cases hentry : entry.1 = other
      · have h : ¬ other = name := fun h => hkey (hentry.trans h)
        rw [upsert, if_neg hkey]
        simp [Named.find?, hentry, h]
      · simp [upsert, Named.find?, hkey, hentry, ih]

theorem keys_upsert (name : String) (f : α → α) (table : List (String × α)) :
    (upsert name empty f table).map Prod.fst =
      if name ∈ table.map Prod.fst then table.map Prod.fst else table.map Prod.fst ++ [name] := by
  induction table with
  | nil => rfl
  | cons entry rest ih =>
    by_cases hkey : entry.1 = name
    · simp [upsert, hkey]
    · simp only [upsert, if_neg hkey, List.map_cons, ih, List.mem_cons, Ne.symm hkey, false_or]
      split <;> simp

theorem nodup_keys_upsert (name : String) (f : α → α) {table : List (String × α)}
    (h : (table.map Prod.fst).Nodup) : ((upsert name empty f table).map Prod.fst).Nodup := by
  rw [keys_upsert]
  split
  · exact h
  · next hname =>
    refine List.nodup_append.mpr ⟨h, List.nodup_singleton name, fun key hkey _ hmem heq => hname ?_⟩
    rwa [← List.mem_singleton.mp hmem, ← heq]

/-- The rests of the paths that start with a name. -/
def below (name : String) (paths : List (List String)) : List (List String) :=
  paths.filterMap fun
    | [] => none
    | first :: rest => if first = name then some rest else none

theorem mem_below {name : String} {paths : List (List String)} {rest : List String} :
    rest ∈ below name paths ↔ name :: rest ∈ paths := by
  unfold below
  rw [List.mem_filterMap]
  constructor
  · rintro ⟨_ | ⟨first, tail⟩, hmem, h⟩
    · cases h
    · dsimp only at h
      split at h
      · next hfirst =>
        cases h
        exact hfirst ▸ hmem
      · cases h
  · exact fun h => ⟨_, h, if_pos rfl⟩

theorem below_cons_self (name : String) (rest : List String) (paths : List (List String)) :
    below name ((name :: rest) :: paths) = rest :: below name paths := by
  simp [below]

theorem below_cons_of_ne {name first : String} (h : name ≠ first) (rest : List String)
    (paths : List (List String)) : below name ((first :: rest) :: paths) = below name paths := by
  simp [below, Ne.symm h]

theorem length_le_of_mem_below {name : String} {paths : List (List String)} {n : Nat}
    (h : ∀ path ∈ paths, path.length ≤ n + 1) : ∀ rest ∈ below name paths, rest.length ≤ n := by
  intro rest hrest
  have hpath := h _ (mem_below.mp hrest)
  rw [List.length_cons] at hpath
  omega

/-- Under a name stand the rests of the paths that start with it. -/
theorem find?_foldl_put (paths : List (List String)) (table : List (String × α)) (name : String) :
    Named.find? name (paths.foldl (put empty add) table) =
      if below name paths = [] then Named.find? name table
      else some ((below name paths).foldl add ((Named.find? name table).getD empty)) := by
  induction paths generalizing table with
  | nil => rfl
  | cons path paths ih =>
    rw [List.foldl_cons, ih]
    rcases path with _ | ⟨first, rest⟩
    · rfl
    rw [put, find?_upsert]
    by_cases h : name = first
    · subst h
      rw [below_cons_self, if_pos rfl, if_neg (List.cons_ne_nil _ _)]
      split
      · next hnil => rw [hnil]; rfl
      · rfl
    · rw [below_cons_of_ne h, if_neg h]

theorem nodup_keys_foldl_put (paths : List (List String)) (table : List (String × α))
    (h : (table.map Prod.fst).Nodup) :
    ((paths.foldl (put empty add) table).map Prod.fst).Nodup := by
  induction paths generalizing table with
  | nil => exact h
  | cons path paths ih =>
    rcases path with _ | ⟨first, rest⟩
    · exact ih table h
    · exact ih _ (nodup_keys_upsert empty first _ h)

/-- A level has an entry that passes a test exactly if some name starts a path and the rests below
it pass. -/
theorem any_foldl_put (paths : List (List String)) (test : String × α → Bool) :
    (paths.foldl (put empty add) []).any test = true ↔
      ∃ name, below name paths ≠ [] ∧ test (name, (below name paths).foldl add empty) = true := by
  have hkeys := nodup_keys_foldl_put empty add paths [] List.nodup_nil
  have hfind := find?_foldl_put empty add paths []
  rw [List.any_eq_true]
  constructor
  · rintro ⟨⟨name, value⟩, hmem, htest⟩
    have h := hfind name
    rw [Named.find?_eq_some_of_mem hkeys hmem] at h
    by_cases hbelow : below name paths = []
    · rw [if_pos hbelow] at h
      cases h
    · rw [if_neg hbelow] at h
      cases h
      exact ⟨name, hbelow, htest⟩
  · rintro ⟨name, hbelow, htest⟩
    refine ⟨_, Named.mem_of_find?_eq_some ?_, htest⟩
    rw [hfind, if_neg hbelow]
    rfl

theorem foldl_put_eq_nil_iff (paths : List (List String)) :
    paths.foldl (put empty add) [] = [] ↔ ∀ path ∈ paths, path = [] := by
  constructor
  · intro h path hpath
    rcases path with _ | ⟨name, rest⟩
    · rfl
    · have hfind := find?_foldl_put empty add paths [] name
      rw [h, if_neg (List.ne_nil_of_mem (mem_below.mpr hpath))] at hfind
      cases hfind
  · intro h
    induction paths with
    | nil => rfl
    | cons path paths ih =>
      rw [List.forall_mem_cons] at h
      rw [h.1]
      exact ih h.2

end Level

/-! ## Maximal paths -/

/-- A path of a list that is no proper prefix of another one. -/
def Maximal (paths : List (List String)) (path : List String) : Prop :=
  path ∈ paths ∧ ∀ other ∈ paths, path <+: other → other = path

theorem maximal_cons_iff {paths : List (List String)} {name : String} {rest : List String} :
    Maximal paths (name :: rest) ↔ Maximal (below name paths) rest := by
  unfold Maximal
  rw [mem_below]
  refine and_congr_right fun _ => ⟨fun h other hother hstart => ?_, fun h other hother hstart => ?_⟩
  · simpa using h (name :: other) (mem_below.mp hother) (by simpa using hstart)
  · obtain ⟨tail, rfl⟩ := hstart
    rw [List.cons_append] at hother ⊢
    rw [h (rest ++ tail) (mem_below.mpr hother) (List.prefix_append rest tail)]

theorem maximal_nil_iff {paths : List (List String)} :
    Maximal paths [] ↔ paths ≠ [] ∧ ∀ path ∈ paths, path = [] := by
  unfold Maximal
  constructor
  · exact fun h => ⟨List.ne_nil_of_mem h.1, fun path hpath => h.2 path hpath List.nil_prefix⟩
  · rintro ⟨hne, hall⟩
    obtain ⟨path, hpath⟩ := List.exists_mem_of_ne_nil _ hne
    exact ⟨hall path hpath ▸ hpath, fun other hother _ => hall other hother⟩

/-- Some maximal path passes exactly if the list holds nothing but the end and the end passes, or
some maximal rest below a name does. -/
theorem exists_maximal_iff {paths : List (List String)} (hne : paths ≠ [])
    (passes : List String → Prop) :
    (∃ path, Maximal paths path ∧ passes path) ↔
      if ∀ path ∈ paths, path = [] then passes []
      else ∃ name rest, Maximal (below name paths) rest ∧ passes (name :: rest) := by
  split
  · next hall =>
    constructor
    · rintro ⟨path, hmax, hpass⟩
      exact hall path hmax.1 ▸ hpass
    · exact fun hpass => ⟨[], maximal_nil_iff.mpr ⟨hne, hall⟩, hpass⟩
  · next hsome =>
    constructor
    · rintro ⟨_ | ⟨name, rest⟩, hmax, hpass⟩
      · exact absurd (maximal_nil_iff.mp hmax).2 hsome
      · exact ⟨name, rest, maximal_cons_iff.mp hmax, hpass⟩
    · rintro ⟨name, rest, hmax, hpass⟩
      exact ⟨name :: rest, maximal_cons_iff.mpr hmax, hpass⟩

/-! ## What a path asks of an update -/

/-- Whether an item is what a tag asks for: `me` asks for the number of the bot, any other tag for
a field of its name or for that type. -/
def Tagged (me : Json) (tag : String) (item : Json) : Prop :=
  if tag = "me" then (item.field "id").same me = true
  else (item.field tag).truthy = true ∨ (item.field "type").same (.str tag) = true

/-- Whether an update has what a path asks for: what the path ends in is there, and what it goes
through counts as true. A tag is looked for in each item of a list, or in a value itself. -/
def Satisfies (update me : Json) : List String → Prop
  | [kind] => (update.field kind).isNull = false
  | [kind, field] =>
    (update.field kind).truthy = true ∧ ((update.field kind).field field).isNull = false
  | [kind, field, tag] =>
    (update.field kind).truthy = true ∧ ((update.field kind).field field).truthy = true ∧
      ∃ item ∈ ((update.field kind).field field).listed, item.isNull = false ∧ Tagged me tag item
  | _ => False

/-- The part of `Satisfies` below an update kind. -/
def SatisfiesBelow (owner me : Json) : List String → Prop
  | [field] => (owner.field field).isNull = false
  | [field, tag] => (owner.field field).truthy = true ∧
      ∃ item ∈ (owner.field field).listed, item.isNull = false ∧ Tagged me tag item
  | _ => False

theorem satisfies_cons_cons (update me : Json) (kind field : String) (rest : List String) :
    Satisfies update me (kind :: field :: rest) ↔
      (update.field kind).truthy = true ∧
        SatisfiesBelow (update.field kind) me (field :: rest) := by
  rcases rest with _ | ⟨tag, _ | ⟨more, rest⟩⟩ <;> simp [Satisfies, SatisfiesBelow]

theorem hasTag_iff (me : Json) (tag : String) (item : Json) :
    hasTag me tag item = true ↔ Tagged me tag item := by
  unfold hasTag Tagged
  split <;> simp

theorem anyHasTag_iff (me : Json) (tag : String) (value : Json) :
    anyHasTag me tag value = true ↔
      ∃ item ∈ value.listed, item.isNull = false ∧ Tagged me tag item := by
  cases value <;> simp [anyHasTag, Json.listed, hasTag_iff]

/-! ## The test of a tree -/

/-- The tags of a field with one more path put in. -/
def addTag (tags : List String) : List String → List String
  | [] => tags
  | tag :: _ => if tags.contains tag then tags else tags ++ [tag]

theorem mem_addTag {tags : List String} {tag first : String} {rest : List String} :
    tag ∈ addTag tags (first :: rest) ↔ tag ∈ tags ∨ tag = first := by
  unfold addTag
  dsimp only
  split
  · next h =>
    rw [List.contains_iff_mem] at h
    exact (or_iff_left_of_imp fun heq => heq ▸ h).symm
  · rw [List.mem_append, List.mem_singleton]

theorem mem_foldl_addTag {rests : List (List String)} {tags : List String} {tag : String} :
    tag ∈ rests.foldl addTag tags ↔ tag ∈ tags ∨ below tag rests ≠ [] := by
  induction rests generalizing tags with
  | nil => simp [below]
  | cons path rests ih =>
    rw [List.foldl_cons, ih]
    rcases path with _ | ⟨first, rest⟩
    · rfl
    rw [mem_addTag, or_assoc]
    by_cases h : tag = first
    · subst h
      simp [below_cons_self]
    · rw [below_cons_of_ne h, or_iff_right h]

theorem foldl_addTag_eq_nil_iff {rests : List (List String)} :
    rests.foldl addTag [] = [] ↔ ∀ rest ∈ rests, rest = [] := by
  constructor
  · intro h rest hrest
    rcases rest with _ | ⟨tag, tail⟩
    · rfl
    · have hmem : tag ∈ rests.foldl addTag [] :=
        mem_foldl_addTag.mpr (.inr (List.ne_nil_of_mem (mem_below.mpr hrest)))
      rw [h] at hmem
      exact absurd hmem List.not_mem_nil
  · intro h
    rw [List.eq_nil_iff_forall_not_mem]
    intro tag htag
    rw [mem_foldl_addTag] at htag
    rcases htag with htag | htag
    · exact List.not_mem_nil htag
    · obtain ⟨rest, hrest⟩ := List.exists_mem_of_ne_nil _ htag
      exact List.cons_ne_nil tag rest (h _ (mem_below.mp hrest))

theorem insert_map_some (tree : Tree) {path : List String} (hpath : path ≠ []) :
    Tree.insert tree (path.map some) = put [] (put [] addTag) tree path := by
  rcases path with _ | ⟨kind, _ | ⟨field, _ | ⟨tag, rest⟩⟩⟩
  · exact absurd rfl hpath
  · rfl
  · rfl
  · rfl

theorem ofPaths_map_some {paths : List (List String)} (hpaths : ∀ path ∈ paths, path ≠ []) :
    Tree.ofPaths (paths.map (·.map some)) = paths.foldl (put [] (put [] addTag)) [] := by
  unfold Tree.ofPaths
  rw [List.foldl_map]
  exact List.foldl_ext _ _ [] fun tree path hpath => insert_map_some tree (hpaths path hpath)

/-- If each name starts a maximal path that passes exactly when what stands under it does, then so
does the level. -/
theorem any_foldl_put_iff_maximal {α : Type} (empty : α) (add : α → List String → α)
    {paths : List (List String)} {test : String × α → Bool} {passes : String → List String → Prop}
    (h : ∀ name, below name paths ≠ [] →
      (test (name, (below name paths).foldl add empty) = true ↔
        ∃ rest, Maximal (below name paths) rest ∧ passes name rest)) :
    (paths.foldl (put empty add) []).any test = true ↔
      ∃ name rest, Maximal (below name paths) rest ∧ passes name rest := by
  rw [any_foldl_put]
  constructor
  · rintro ⟨name, hbelow, htest⟩
    exact ⟨name, (h name hbelow).mp htest⟩
  · rintro ⟨name, rest, hmax, hpass⟩
    have hbelow := List.ne_nil_of_mem hmax.1
    exact ⟨name, hbelow, (h name hbelow).mpr ⟨rest, hmax, hpass⟩⟩

/-- A node asks for a value that is not null if nothing stands below it, and else for one that
counts as true and for what a maximal rest asks for. -/
theorem node_iff {α : Type} {value : Json} {inner : List α} {test : α → Bool}
    {rests : List (List String)} {passes : List String → Prop}
    (deeper : String → List String → Prop) (hne : rests ≠ [])
    (hinner : inner = [] ↔ ∀ rest ∈ rests, rest = [])
    (hend : passes [] ↔ value.isNull = false)
    (hcons : ∀ name rest, passes (name :: rest) ↔ value.truthy = true ∧ deeper name rest)
    (htest : inner.any test = true ↔
      ∃ name rest, Maximal (below name rests) rest ∧ deeper name rest) :
    (if inner.isEmpty then !value.isNull else value.truthy && inner.any test) = true ↔
      ∃ rest, Maximal rests rest ∧ passes rest := by
  rw [exists_maximal_iff hne]
  by_cases hall : ∀ rest ∈ rests, rest = []
  · rw [if_pos hall, hinner.mpr hall, hend]
    simp
  · have hnonempty : inner.isEmpty = false := List.isEmpty_eq_false_iff.mpr (mt hinner.mp hall)
    rw [if_neg hall, hnonempty, if_neg Bool.false_ne_true, Bool.and_eq_true, htest]
    simp only [hcons]
    constructor
    · rintro ⟨htruthy, name, rest, hmax, hpass⟩
      exact ⟨name, rest, hmax, htruthy, hpass⟩
    · rintro ⟨name, rest, hmax, htruthy, hpass⟩
      exact ⟨htruthy, name, rest, hmax, hpass⟩

/-- A field with the rests below it passes exactly if a maximal one of them does. -/
theorem testField_iff (me owner : Json) (field : String) {rests : List (List String)}
    (hne : rests ≠ []) (hlen : ∀ rest ∈ rests, rest.length ≤ 1) :
    testField me owner (field, rests.foldl addTag []) = true ↔
      ∃ rest, Maximal rests rest ∧ SatisfiesBelow owner me (field :: rest) := by
  refine node_iff (fun tag rest => rest = [] ∧ anyHasTag me tag (owner.field field) = true) hne
    foldl_addTag_eq_nil_iff Iff.rfl ?_ ?_
  · rintro tag (_ | ⟨more, rest⟩) <;> simp [SatisfiesBelow, anyHasTag_iff]
  -- below a tag there is nothing, so a tag that is asked for is maximal
  have hend : ∀ tag, ∀ rest ∈ below tag rests, rest = [] := fun tag rest hrest =>
    List.length_eq_zero_iff.mp (Nat.le_zero.mp (length_le_of_mem_below hlen rest hrest))
  simp only [List.any_eq_true, mem_foldl_addTag, List.not_mem_nil, false_or]
  constructor
  · rintro ⟨tag, hbelow, hitem⟩
    exact ⟨tag, [], maximal_nil_iff.mpr ⟨hbelow, hend tag⟩, rfl, hitem⟩
  · rintro ⟨tag, rest, hmax, -, hitem⟩
    exact ⟨tag, List.ne_nil_of_mem hmax.1, hitem⟩

/-- An update kind with the rests below it passes exactly if a maximal one of them does. -/
theorem testKind_iff (me update : Json) (kind : String) {rests : List (List String)}
    (hne : rests ≠ []) (hlen : ∀ rest ∈ rests, rest.length ≤ 2) :
    testKind me update (kind, rests.foldl (put [] addTag) []) = true ↔
      ∃ rest, Maximal rests rest ∧ Satisfies update me (kind :: rest) := by
  refine node_iff _ hne (foldl_put_eq_nil_iff [] addTag rests) Iff.rfl
    (satisfies_cons_cons update me kind) ?_
  exact any_foldl_put_iff_maximal [] addTag fun field hbelow =>
    testField_iff me (update.field kind) field hbelow (length_le_of_mem_below hlen)

/-- The tree of some paths passes an update exactly if the update satisfies a maximal path. -/
theorem test_ofPaths_iff {paths : List (List String)}
    (hpaths : ∀ path ∈ paths, path ≠ [] ∧ path.length ≤ 3) (update me : Json) :
    (Tree.ofPaths (paths.map (·.map some))).test update me = true ↔
      ∃ path, Maximal paths path ∧ Satisfies update me path := by
  have hlevel := any_foldl_put_iff_maximal [] (put [] addTag) fun kind hbelow =>
    testKind_iff me update kind hbelow
      (length_le_of_mem_below fun path hpath => (hpaths path hpath).2)
  rw [ofPaths_map_some fun path hpath => (hpaths path hpath).1, Tree.test, hlevel]
  constructor
  · rintro ⟨kind, rest, hmax, hpass⟩
    exact ⟨kind :: rest, maximal_cons_iff.mpr hmax, hpass⟩
  · rintro ⟨path, hmax, hpass⟩
    obtain ⟨kind, rest, rfl⟩ := List.exists_cons_of_ne_nil (hpaths path hmax.1).1
    exact ⟨kind, rest, maximal_cons_iff.mp hmax, hpass⟩

end UpdateDispatch.Filter
