import Mathlib
import UpdateDispatch.Proofs.Pattern.Matching
import UpdateDispatch.Trigger

/-!
# Which trigger a text satisfies first

`Trigger.Answers` says what a list of triggers should answer on a text: true with the result of the
first trigger that the text satisfies, or false with the context as it was. The answer given is the
one that the list without its empty texts should give, since the result of an empty text, the empty
text itself, counts as false. So it is the right one unless the first trigger that the text
satisfies is an empty text (`matchTriggers_answers_iff`), which only the empty text can satisfy.
-/

namespace UpdateDispatch

namespace Trigger

/-- Whether a trigger is one for texts: a text or a pattern. -/
def Textual : Trigger → Prop
  | .equals v => ∃ s, v = .str s
  | .pattern _ => True

/-- Whether a text satisfies a trigger: by equality, or by a match anywhere in it. -/
def Accepts (content : String) : Trigger → Prop
  | .equals v => v = .str content
  | .pattern r => r.Occurs content

/-- The result of a trigger on a text that satisfies it: the text, or the leftmost match in it. -/
def Gives (content : String) : Trigger → Matched → Prop
  | .equals v, m => v = .str content ∧ m = .value (.str content)
  | .pattern r, m => ∃ f, r.search content = some f ∧ r.Finds content f ∧ m = .found f

/-- The first trigger of a list that a text satisfies, and its result. -/
structure First (content : String) (triggers : List Trigger) (t : Trigger) (m : Matched) :
    Prop where
  split : ∃ before after, triggers = before ++ t :: after ∧ ∀ b ∈ before, ¬ b.Accepts content
  gives : t.Gives content m

/-- What a list of triggers should answer on a text, with the context after it. -/
def Answers (c : Context) (content : String) (triggers : List Trigger)
    (answer : Except Fault (Bool × Context)) : Prop :=
  (∃ t m, First content triggers t m ∧ answer = .ok (true, { c with matched := m })) ∨
    (∀ t ∈ triggers, ¬ t.Accepts content) ∧ answer = .ok (false, c)

/-- Whether a trigger is the empty text. -/
def isEmptyText : Trigger → Bool
  | .equals (.str s) => s.isEmpty
  | _ => false

variable {c : Context} {content : String} {triggers : List Trigger} {t u : Trigger}
  {m n : Matched}

theorem isEmptyText_iff : t.isEmptyText = true ↔ t = .equals (.str "") := by
  constructor
  · intro h
    unfold isEmptyText at h
    split at h
    case h_1 s => rw [String.isEmpty_iff.mp h]
    case h_2 => cases h
  · rintro rfl
    rfl

/-! ## One trigger -/

theorem accepts_of_gives (h : t.Gives content m) : t.Accepts content := by
  cases t with
  | equals v => exact h.1
  | pattern r =>
    obtain ⟨f, found, -⟩ := h
    exact Regex.search_isSome_iff.mp (by simp [found])

theorem gives_of_accepts (h : t.Accepts content) : ∃ m, t.Gives content m := by
  cases t with
  | equals v => exact ⟨_, h, rfl⟩
  | pattern r =>
    obtain ⟨f, found⟩ := Option.isSome_iff_exists.mp (Regex.search_isSome_iff.mpr h)
    exact ⟨_, f, found, Regex.finds_of_search found, rfl⟩

theorem Gives.unique (h : t.Gives content m) (h' : t.Gives content n) : m = n := by
  cases t with
  | equals v => exact h.2.trans h'.2.symm
  | pattern r =>
    obtain ⟨f, found, -, rfl⟩ := h
    obtain ⟨g, found', -, rfl⟩ := h'
    rw [Option.some.inj (found.symm.trans found')]

/-- A trigger for texts that is not the empty text gives its result to every text that satisfies
it, and nothing to the others. -/
theorem apply_cases (textual : t.Textual) (nonempty : t.isEmptyText = false) :
    (∃ m, t.Gives content m ∧ t.apply (.str content) = .ok (some m)) ∨
      ¬ t.Accepts content ∧ t.apply (.str content) = .ok none := by
  cases t with
  | equals v =>
    obtain ⟨s, rfl⟩ := textual
    have nonempty : s.isEmpty = false := nonempty
    by_cases same : content = s
    · subst same
      exact .inl ⟨_, ⟨rfl, rfl⟩, by simp [apply, Json.same, Json.truthy, nonempty]⟩
    · refine .inr ⟨fun accepted => ?_, by simp [apply, Json.same, same]⟩
      exact same (Json.str.inj accepted).symm
  | pattern r =>
    cases search : r.search content with
    | some f =>
      exact .inl ⟨_, ⟨f, search, Regex.finds_of_search search, rfl⟩, by simp [apply, search]⟩
    | none =>
      refine .inr ⟨fun occurs => ?_, by simp [apply, search]⟩
      simpa [search] using Regex.search_isSome_iff.mpr occurs

/-- The empty text never succeeds. -/
theorem apply_emptyText : (equals (.str "")).apply (.str content) = .ok none := by
  simp [apply, Json.truthy]

/-! ## The first of several -/

theorem first_cons_iff :
    First content (u :: triggers) t m ↔
      t = u ∧ u.Gives content m ∨ ¬ u.Accepts content ∧ First content triggers t m := by
  constructor
  · rintro ⟨⟨before, after, split, not_before⟩, gives⟩
    cases before with
    | nil =>
      obtain ⟨rfl, -⟩ := List.cons.inj split
      exact .inl ⟨rfl, gives⟩
    | cons b before =>
      obtain ⟨rfl, tail_eq⟩ := List.cons.inj split
      rw [List.forall_mem_cons] at not_before
      exact .inr ⟨not_before.1, ⟨before, after, tail_eq, not_before.2⟩, gives⟩
  · rintro (⟨rfl, gives⟩ | ⟨not_first, ⟨before, after, rfl, not_before⟩, gives⟩)
    · exact ⟨⟨[], triggers, rfl, by simp⟩, gives⟩
    · exact ⟨⟨u :: before, after, rfl, List.forall_mem_cons.mpr ⟨not_first, not_before⟩⟩, gives⟩

theorem First.unique (h : First content triggers t m) (h' : First content triggers u n) :
    t = u ∧ m = n := by
  induction triggers with
  | nil =>
    obtain ⟨⟨before, after, split, -⟩, -⟩ := h
    simp at split
  | cons a triggers ih =>
    rcases first_cons_iff.mp h with ⟨rfl, gives⟩ | ⟨not_first, h⟩
    · rcases first_cons_iff.mp h' with ⟨rfl, gives'⟩ | ⟨not_first, -⟩
      · exact ⟨rfl, gives.unique gives'⟩
      · exact absurd (accepts_of_gives gives) not_first
    · rcases first_cons_iff.mp h' with ⟨rfl, gives⟩ | ⟨-, h'⟩
      · exact absurd (accepts_of_gives gives) not_first
      · exact ih h h'

theorem First.mem (h : First content triggers t m) : t ∈ triggers := by
  obtain ⟨⟨before, after, rfl, -⟩, -⟩ := h
  simp

/-! ## The answer -/

theorem answers_cons_iff {answer : Except Fault (Bool × Context)} :
    Answers c content (u :: triggers) answer ↔
      (∃ m, u.Gives content m ∧ answer = .ok (true, { c with matched := m })) ∨
        ¬ u.Accepts content ∧ Answers c content triggers answer := by
  constructor
  · rintro (⟨t, m, first, rfl⟩ | ⟨none_accepts, rfl⟩)
    · rcases first_cons_iff.mp first with ⟨-, gives⟩ | ⟨not_first, first⟩
      · exact .inl ⟨m, gives, rfl⟩
      · exact .inr ⟨not_first, .inl ⟨t, m, first, rfl⟩⟩
    · rw [List.forall_mem_cons] at none_accepts
      exact .inr ⟨none_accepts.1, .inr ⟨none_accepts.2, rfl⟩⟩
  · rintro (⟨m, gives, rfl⟩ | ⟨not_first, ⟨t, m, first, rfl⟩ | ⟨none_accepts, rfl⟩⟩)
    · exact .inl ⟨u, m, first_cons_iff.mpr (.inl ⟨rfl, gives⟩), rfl⟩
    · exact .inl ⟨t, m, first_cons_iff.mpr (.inr ⟨not_first, first⟩), rfl⟩
    · exact .inr ⟨List.forall_mem_cons.mpr ⟨not_first, none_accepts⟩, rfl⟩

theorem Answers.unique {answer answer' : Except Fault (Bool × Context)}
    (h : Answers c content triggers answer) (h' : Answers c content triggers answer') :
    answer = answer' := by
  have refutes {t : Trigger} {m : Matched} (first : First content triggers t m)
      (none_accepts : ∀ t ∈ triggers, ¬ t.Accepts content) : False :=
    none_accepts t first.mem (accepts_of_gives first.gives)
  rcases h with ⟨t, m, first, rfl⟩ | ⟨none_accepts, rfl⟩
  · rcases h' with ⟨u, n, first', rfl⟩ | ⟨none_accepts, -⟩
    · rw [(first.unique first').2]
    · exact (refutes first none_accepts).elim
  · rcases h' with ⟨u, n, first, -⟩ | ⟨-, rfl⟩
    · exact (refutes first none_accepts).elim
    · rfl

/-- The answer given is the one that the list without its empty texts should give. -/
theorem answers_filter (c : Context) (content : String) (textual : ∀ t ∈ triggers, t.Textual) :
    Answers c content (triggers.filter (!·.isEmptyText))
      (c.matchTriggers (.str content) triggers) := by
  induction triggers with
  | nil => exact .inr ⟨by simp, rfl⟩
  | cons a triggers ih =>
    rw [List.forall_mem_cons] at textual
    cases empty : a.isEmptyText with
    | true =>
      obtain rfl := isEmptyText_iff.mp empty
      rw [List.filter_cons_of_neg (by simp [empty])]
      simpa only [Context.matchTriggers, firstMatch, apply_emptyText] using ih textual.2
    | false =>
      rw [List.filter_cons_of_pos (by simp [empty]), answers_cons_iff]
      rcases apply_cases textual.1 empty with ⟨m, gives, applied⟩ | ⟨not_first, applied⟩
      · refine .inl ⟨m, gives, ?_⟩
        simp only [Context.matchTriggers, firstMatch, applied]
        rfl
      · refine .inr ⟨not_first, ?_⟩
        simpa only [Context.matchTriggers, firstMatch, applied] using ih textual.2

/-- Leaving the empty texts out changes no answer, unless one of them is the first trigger that the
text satisfies. -/
theorem answers_filter_iff {answer : Except Fault (Bool × Context)}
    (not_empty : ∀ m, ¬ First content triggers (.equals (.str "")) m) :
    Answers c content (triggers.filter (!·.isEmptyText)) answer ↔
      Answers c content triggers answer := by
  induction triggers with
  | nil => rfl
  | cons a triggers ih =>
    have not_here : ∀ m, a.isEmptyText = true → ¬ a.Gives content m := fun m empty gives =>
      not_empty m (first_cons_iff.mpr (.inl ⟨(isEmptyText_iff.mp empty).symm, gives⟩))
    have not_later : ¬ a.Accepts content → ∀ m, ¬ First content triggers (.equals (.str "")) m :=
      fun not_first m first => not_empty m (first_cons_iff.mpr (.inr ⟨not_first, first⟩))
    have rest : ¬ a.Accepts content →
        (Answers c content (triggers.filter (!·.isEmptyText)) answer ↔
          Answers c content triggers answer) := fun not_first => ih (not_later not_first)
    cases empty : a.isEmptyText with
    | true =>
      have not_first : ¬ a.Accepts content := fun accepts =>
        have ⟨m, gives⟩ := gives_of_accepts accepts
        not_here m empty gives
      rw [List.filter_cons_of_neg (by simp [empty]), answers_cons_iff, rest not_first]
      simp [not_first, not_here _ empty]
    | false =>
      rw [List.filter_cons_of_pos (by simp [empty]), answers_cons_iff, answers_cons_iff]
      exact or_congr_right (and_congr_right rest)

/-- The triggers answer on a text as the list without its empty texts should. This is what the list
itself should answer exactly if an empty text is not the first trigger that the text satisfies. -/
theorem matchTriggers_answers_iff (c : Context) (content : String) {triggers : List Trigger}
    (textual : ∀ t ∈ triggers, t.Textual) :
    Answers c content (triggers.filter (!·.isEmptyText))
        (c.matchTriggers (.str content) triggers) ∧
      (Answers c content triggers (c.matchTriggers (.str content) triggers) ↔
        ∀ m, ¬ First content triggers (.equals (.str "")) m) := by
  have given := answers_filter c content textual
  refine ⟨given, fun right m first => ?_, fun not_empty => (answers_filter_iff not_empty).mp given⟩
  have result_eq : m = .value (.str "") := by
    obtain ⟨same, rfl⟩ := first.gives
    rw [same]
  have answer_eq := right.unique (.inl ⟨_, m, first, rfl⟩)
  rw [answer_eq, result_eq] at given
  rcases given with ⟨t, n, counted, same⟩ | ⟨-, same⟩
  · -- Only a text gives a text, and an empty one is not in the list.
    obtain rfl : n = .value (.str "") := by simpa using same.symm
    have nonempty : t.isEmptyText = false := by simpa using (List.mem_filter.mp counted.mem).2
    cases t with
    | equals v =>
      obtain ⟨rfl, result_eq⟩ := counted.gives
      obtain rfl : "" = content := by simpa using result_eq
      cases nonempty
    | pattern r =>
      obtain ⟨f, -, -, result_eq⟩ := counted.gives
      cases result_eq
  · cases same

/-- A text that is its own trigger, after an empty one. -/
theorem matchTriggers_answers_iff_of_text :
    Answers default "ask" ([.equals (.str ""), .equals (.str "ask")].filter (!·.isEmptyText))
        ((default : Context).matchTriggers (.str "ask")
          [.equals (.str ""), .equals (.str "ask")]) ∧
      (Answers default "ask" [.equals (.str ""), .equals (.str "ask")]
          ((default : Context).matchTriggers (.str "ask")
            [.equals (.str ""), .equals (.str "ask")]) ↔
        ∀ m, ¬ First "ask" [.equals (.str ""), .equals (.str "ask")] (.equals (.str "")) m) :=
  matchTriggers_answers_iff default "ask" (by simp [Textual])

/-- The empty text is not accepted as a match of itself. -/
theorem emptyText_is_refused :
    First "" [.equals (.str "")] (.equals (.str "")) (.value (.str "")) ∧
      (default : Context).matchTriggers (.str "") [.equals (.str "")] = .ok (false, default) ∧
      ¬ Answers default "" [.equals (.str "")]
        ((default : Context).matchTriggers (.str "") [.equals (.str "")]) := by
  have first : First "" [.equals (.str "")] (.equals (.str "")) (.value (.str "")) :=
    ⟨⟨[], [], rfl, by simp⟩, rfl, rfl⟩
  have refused : (default : Context).matchTriggers (.str "") [.equals (.str "")] =
      .ok (false, default) := by cbv
  refine ⟨first, refused, fun right => ?_⟩
  have answer_eq := right.unique (.inl ⟨_, _, first, rfl⟩)
  rw [refused] at answer_eq
  cases answer_eq

/-! ## Texts and what is missing -/

/-- On a text there is always an answer. -/
theorem exists_matchTriggers_str (c : Context) (content : String) (triggers : List Trigger) :
    ∃ accepted c', c.matchTriggers (.str content) triggers = .ok (accepted, c') := by
  have answered : ∃ result, firstMatch (.str content) triggers = .ok result := by
    induction triggers with
    | nil => exact ⟨_, rfl⟩
    | cons t triggers ih =>
      obtain ⟨result, applied⟩ : ∃ result, t.apply (.str content) = .ok result := by
        cases t <;> exact ⟨_, rfl⟩
      cases result with
      | some m => exact ⟨some m, by simp [firstMatch, applied]⟩
      | none =>
        obtain ⟨result, later⟩ := ih
        exact ⟨result, by simp [firstMatch, applied, later]⟩
  obtain ⟨result, answered⟩ := answered
  cases result with
  | some m => exact ⟨true, { c with matched := m }, by simp [Context.matchTriggers, answered]; rfl⟩
  | none => exact ⟨false, c, by simp [Context.matchTriggers, answered]; rfl⟩

/-- What is missing equals no text and cannot be searched. -/
theorem matchTriggers_null (c : Context) (textual : ∀ t ∈ triggers, t.Textual) :
    (∃ r, .pattern r ∈ triggers) ∧
        (∃ what, c.matchTriggers .null triggers = .error (.mismatch what)) ∨
      (∀ r, .pattern r ∉ triggers) ∧ c.matchTriggers .null triggers = .ok (false, c) := by
  induction triggers with
  | nil => exact .inr ⟨by simp, rfl⟩
  | cons t triggers ih =>
    rw [List.forall_mem_cons] at textual
    cases t with
    | pattern r => exact .inl ⟨⟨r, List.mem_cons_self⟩, _, rfl⟩
    | equals v =>
      obtain ⟨s, rfl⟩ := textual.1
      have skipped : c.matchTriggers .null (.equals (.str s) :: triggers) =
          c.matchTriggers .null triggers := rfl
      rw [skipped]
      simpa using ih textual.2

end Trigger
end UpdateDispatch
