import UpdateDispatch.Filter.Query
import Mathlib

/-!
# Splitting a query and joining it again

`tokens` splits a text at its colons and `joined ":"` undoes it: `joined_tokens` and
`tokens_joined`. The tokens of a text are the only texts without colons that join to it, so paths
with different names have different texts.
-/

namespace UpdateDispatch

/-! ## Pieces -/

namespace Text

theorem pieces_cons_self (separator : Char) (cs : List Char) :
    pieces separator (separator :: cs) = [] :: pieces separator cs := by
  rw [pieces, if_pos rfl]

theorem pieces_cons_of_ne {separator c : Char} (h : c ≠ separator) (cs : List Char) :
    pieces separator (c :: cs) =
      match pieces separator cs with
      | [] => [[c]]
      | piece :: rest => (c :: piece) :: rest := by
  rw [pieces]
  exact if_neg h

theorem pieces_eq_splitOn (separator : Char) (cs : List Char) :
    pieces separator cs = cs.splitOn separator := by
  induction cs with
  | nil => rfl
  | cons c cs ih =>
    rw [List.splitOn_cons_eq_if_modifyHead]
    by_cases h : c = separator
    · rw [h, pieces_cons_self, if_pos (by simp), ih]
    · rw [pieces_cons_of_ne h, if_neg (by simpa using h), ih]
      rcases hp : cs.splitOn separator with _ | ⟨piece, rest⟩
      · exact absurd hp (List.splitOn_ne_nil separator cs)
      · rfl

theorem pieces_ne_nil (separator : Char) (cs : List Char) : pieces separator cs ≠ [] := by
  rw [pieces_eq_splitOn]
  exact List.splitOn_ne_nil separator cs

theorem separator_notMem_of_mem_pieces {separator : Char} {cs piece : List Char}
    (h : piece ∈ pieces separator cs) : separator ∉ piece := by
  induction cs generalizing piece with
  | nil =>
    obtain rfl : piece = [] := by simpa [pieces] using h
    exact List.not_mem_nil
  | cons c cs ih =>
    by_cases hc : c = separator
    · rw [hc, pieces_cons_self] at h
      rcases List.mem_cons.mp h with rfl | h
      · exact List.not_mem_nil
      · exact ih h
    · rw [pieces_cons_of_ne hc] at h
      rcases hp : pieces separator cs with _ | ⟨first, rest⟩
      · exact absurd hp (pieces_ne_nil separator cs)
      · rw [hp] at h
        rcases List.mem_cons.mp h with rfl | h
        · have hfirst := ih (hp ▸ List.mem_cons_self)
          simp [hfirst, Ne.symm hc]
        · exact ih (hp ▸ List.mem_cons_of_mem first h)

end Text

namespace Filter

/-! ## Joined texts -/

theorem joined_eq_intercalate (separator : String) (texts : List String) :
    joined separator texts = separator.intercalate texts := by
  induction texts with
  | nil => rw [String.intercalate_nil]; rfl
  | cons s rest ih =>
    cases rest with
    | nil => rw [String.intercalate_singleton]; rfl
    | cons t rest => rw [String.intercalate_cons_cons, ← ih]; rfl

/-- A text without a colon. -/
def ColonFree (s : String) : Prop := ':' ∉ s.toList

instance : DecidablePred ColonFree := fun s => by unfold ColonFree; infer_instance

theorem colonFree_of_mem_tokens {query token : String} (h : token ∈ tokens query) :
    ColonFree token := by
  obtain ⟨piece, hpiece, rfl⟩ := List.mem_map.mp h
  unfold ColonFree
  rw [String.toList_ofList]
  exact Text.separator_notMem_of_mem_pieces hpiece

theorem tokens_ne_nil (query : String) : tokens query ≠ [] := by
  unfold tokens
  simpa using Text.pieces_ne_nil ':' query.toList

theorem map_toList_tokens (query : String) :
    (tokens query).map String.toList = query.toList.splitOn ':' := by
  unfold tokens
  rw [List.map_map, ← Text.pieces_eq_splitOn]
  simp [Function.comp_def]

/-- Joining the tokens of a query gives the query back. -/
theorem joined_tokens (query : String) : joined ":" (tokens query) = query := by
  apply String.toList_inj.mp
  rw [joined_eq_intercalate, String.toList_intercalate, map_toList_tokens]
  exact List.intercalate_splitOn ':'

/-- Texts without colons are the tokens of the text that they join to. -/
theorem tokens_joined {names : List String} (hne : names ≠ [])
    (hfree : ∀ name ∈ names, ColonFree name) : tokens (joined ":" names) = names := by
  have h : (tokens (joined ":" names)).map String.toList = names.map String.toList := by
    rw [map_toList_tokens, joined_eq_intercalate, String.toList_intercalate]
    refine List.splitOn_intercalate ':' ?_ (by simpa using hne)
    intro cs hcs
    obtain ⟨name, hname, rfl⟩ := List.mem_map.mp hcs
    exact hfree name hname
  exact List.map_injective_iff.mpr (fun _ _ => String.toList_inj.mp) h

end Filter
end UpdateDispatch
