import Mathlib.Order.Nat
import UpdateDispatch.Pattern.Search

/-!
# What a search finds

`Pattern.Matches` says between which places of a text a pattern matches, without an order among the
choices and without what follows. `Pattern.run`, which tries the choices one after the other and
goes on with what follows, comes through only at places where `Matches` leads (`run_sound`), and it
does come through if what follows accepts some place where `Matches` leads (`run_complete`).

A repetition never goes on after a match of its body that consumed nothing. This loses no match,
since the empty ones beyond the least number can be left out (`Repeats.advancing`), and it makes
the bound on the number of repetitions that `run` gives to `loop` high enough.

For a search it follows that it succeeds exactly if the pattern occurs in the text, an empty match
counting too (`Regex.search_isSome_iff`), and that what it finds is a match at the leftmost place
that has one (`Regex.finds_of_search`).
-/

namespace UpdateDispatch

namespace Cursor

/-- A cursor that stands in a text. -/
structure On (text : List Char) (s : Cursor) : Prop where
  text_eq : s.before.reverse ++ s.after = text
  position_eq : s.position = s.before.length

/-- The cursor at a place of a text. -/
def place (text : List Char) (i : Nat) : Cursor where
  before := (text.take i).reverse
  after := text.drop i
  position := i

variable {text : List Char} {s t : Cursor}

theorem On.before_eq (on : s.On text) : s.before = (text.take s.position).reverse := by
  rw [on.position_eq, ← on.text_eq]
  simp

theorem On.after_eq (on : s.On text) : s.after = text.drop s.position := by
  rw [on.position_eq, ← on.text_eq]
  simp

theorem On.position_le (on : s.On text) : s.position ≤ text.length := by
  rw [on.position_eq, ← on.text_eq]
  simp

theorem On.close (on : s.On text) (number start : Nat) : (s.close number start).On text :=
  ⟨on.text_eq, on.position_eq⟩

/-- An anchor looks at nothing but the place. -/
theorem On.satisfies_eq (on : s.On text) (multiLine : Bool) (a : Anchor) :
    s.satisfies multiLine a = (place text s.position).satisfies multiLine a := by
  cases a <;> simp [satisfies, place, ← on.before_eq, ← on.after_eq]

theorem On.of_advance {accepts : Char → Bool} (on : s.On text)
    (moves : s.advance? accepts = some t) :
    t.On text ∧ t.position = s.position + 1 ∧ ∃ c, text[s.position]? = some c ∧ accepts c := by
  unfold advance? at moves
  split at moves
  case h_2 => cases moves
  case h_1 c rest after_eq =>
    split at moves
    case isFalse => cases moves
    case isTrue accepted =>
      cases moves
      refine ⟨⟨?_, ?_⟩, rfl, c, ?_, accepted⟩
      · simp [← on.text_eq, after_eq]
      · simp [on.position_eq]
      · rw [on.position_eq, ← on.text_eq, after_eq]
        simp

theorem On.advances {accepts : Char → Bool} {c : Char} (on : s.On text)
    (next : text[s.position]? = some c) (accepted : accepts c) :
    ∃ t, s.advance? accepts = some t := by
  obtain ⟨lt, at_position⟩ := List.getElem?_eq_some_iff.mp next
  have after_eq : s.after = c :: text.drop (s.position + 1) := by
    rw [on.after_eq, List.drop_eq_getElem_cons lt, at_position]
  simp [advance?, after_eq, accepted]

end Cursor

namespace Pattern

/-! ## Between which places a pattern matches -/

/-- Whether a number of steps, one after the other, lead from one place to another. -/
def Repeats (Step : Nat → Nat → Prop) : Nat → Nat → Nat → Prop
  | 0, i, j => i = j
  | n + 1, i, j => ∃ m, Step i m ∧ Repeats Step n m j

/-- Whether some steps lead from one place to another that together with `count` earlier ones are
as many as a repetition may have. The least number is taken even if it is above the most. -/
def Counted (Step : Nat → Nat → Prop) (least : Nat) (most : Option Nat) (count i j : Nat) : Prop :=
  ∃ n, least ≤ count + n ∧ (∀ bound ∈ most, count + n ≤ max least bound) ∧ Repeats Step n i j

/-- Whether the second place is one accepted character after the first. -/
def Reads (text : List Char) (accepts : Char → Bool) (i j : Nat) : Prop :=
  j = i + 1 ∧ ∃ c, text[i]? = some c ∧ accepts c

/-- Whether a pattern matches a text from one place up to another. -/
def Matches (flags : PatternFlags) (text : List Char) : Pattern → Nat → Nat → Prop
  | .empty, i, j => i = j
  | .char c, i, j => Reads text (acceptsChar flags c) i j
  | .any, i, j => Reads text (fun c => flags.dotAll || c != '\n') i j
  | .set negated items, i, j => Reads text (acceptsSet flags negated items) i j
  | .anchor a, i, j => i = j ∧ (Cursor.place text i).satisfies flags.multiLine a
  | .seq p q, i, j => ∃ m, Matches flags text p i m ∧ Matches flags text q m j
  | .either p q, i, j => Matches flags text p i j ∨ Matches flags text q i j
  | .group _ p, i, j => Matches flags text p i j
  | .repeated p least most _, i, j => Counted (Matches flags text p) least most 0 i j

section

variable {Step : Nat → Nat → Prop} {text : List Char} {least count i j m n : Nat}
  {most : Option Nat}

theorem Repeats.le (forward : ∀ {i j}, Step i j → i ≤ j) (h : Repeats Step n i j) : i ≤ j := by
  induction n generalizing i with
  | zero => exact le_of_eq h
  | succ n ih =>
    obtain ⟨m, first, rest⟩ := h
    exact (forward first).trans (ih rest)

theorem Repeats.le_length (within : ∀ {i j}, Step i j → i ≤ text.length → j ≤ text.length)
    (h : Repeats Step n i j) (le : i ≤ text.length) : j ≤ text.length := by
  induction n generalizing i with
  | zero => exact h ▸ le
  | succ n ih =>
    obtain ⟨m, first, rest⟩ := h
    exact ih rest (within first le)

/-- Steps that stay in place can be left out. -/
theorem Repeats.advancing (forward : ∀ {i j}, Step i j → i ≤ j) (h : Repeats Step n i j) :
    ∃ n' ≤ n, Repeats (fun i j => Step i j ∧ i < j) n' i j := by
  induction n generalizing i with
  | zero => exact ⟨0, le_rfl, h⟩
  | succ n ih =>
    obtain ⟨m, first, rest⟩ := h
    obtain ⟨n', le, rest⟩ := ih rest
    rcases (forward first).eq_or_lt with rfl | lt
    · exact ⟨n', by omega, rest⟩
    · exact ⟨n' + 1, by omega, m, ⟨first, lt⟩, rest⟩

theorem Counted.stop (enough : least ≤ count) (allowed : ∀ bound ∈ most, count ≤ max least bound) :
    Counted Step least most count i i :=
  ⟨0, enough, allowed, rfl⟩

theorem Counted.more (first : Step i m) (rest : Counted Step least most (count + 1) m j) :
    Counted Step least most count i j := by
  obtain ⟨n, enough, allowed, rest⟩ := rest
  exact ⟨n + 1, by omega, fun bound is_bound => by have := allowed bound is_bound; omega,
    m, first, rest⟩

/-- A repetition that lacks matches of its body goes through one more. -/
theorem Counted.first (few : count < least) (h : Counted Step least most count i j) :
    ∃ m, Step i m ∧ Counted Step least most (count + 1) m j := by
  obtain ⟨n, enough, allowed, steps⟩ := h
  cases n with
  | zero => omega
  | succ n =>
    obtain ⟨m, first, rest⟩ := steps
    exact ⟨m, first, n, by omega,
      fun bound is_bound => by have := allowed bound is_bound; omega, rest⟩

theorem Reads.le_length {accepts : Char → Bool} (h : Reads text accepts i j) :
    j ≤ text.length := by
  obtain ⟨rfl, c, at_i, -⟩ := h
  exact (List.getElem?_eq_some_iff.mp at_i).1

theorem Matches.le {flags : PatternFlags} {p : Pattern} :
    ∀ {i j}, Matches flags text p i j → i ≤ j := by
  induction p with
  | empty => exact fun h => le_of_eq h
  | char | any | set => exact fun h => by have := h.1; omega
  | anchor => exact fun h => le_of_eq h.1
  | seq p q first second => exact fun ⟨m, h, h'⟩ => (first h).trans (second h')
  | either p q first second => exact fun h => h.elim first second
  | group _ p ih => exact ih
  | repeated p least most greedy ih => exact fun ⟨n, _, _, h⟩ => h.le ih

end

/-! ## Matchers -/

section

variable (text : List Char) (Step : Nat → Nat → Prop) (m : Matcher)

/-- A matcher that comes through only at places where a relation leads. -/
def Sound : Prop :=
  ∀ {s : Cursor} {k : Cursor → Option Cursor} {c : Cursor}, s.On text → m s k = some c →
    ∃ s', s'.On text ∧ Step s.position s'.position ∧ k s' = some c

/-- A matcher that comes through if what follows accepts a place where a relation leads. -/
def Complete : Prop :=
  ∀ {s : Cursor} {k : Cursor → Option Cursor} {j : Nat}, s.On text → Step s.position j →
    (∀ s', s'.On text → s'.position = j → (k s').isSome) → (m s k).isSome

end

section

variable {text : List Char} {flags : PatternFlags} {Step : Nat → Nat → Prop} {body : Matcher}
  {least count fuel : Nat} {most last : Option Nat} {greedy : Bool} {s : Cursor}
  {k : Cursor → Option Cursor} {j : Nat}

theorem sound_advance (accepts : Char → Bool) :
    Sound text (Reads text accepts) fun s k => (s.advance? accepts).bind k := by
  intro s k c on ran
  obtain ⟨s', moves, ran⟩ := Option.bind_eq_some_iff.mp ran
  obtain ⟨on', position_eq, reads⟩ := on.of_advance moves
  exact ⟨s', on', ⟨position_eq, reads⟩, ran⟩

theorem complete_advance (accepts : Char → Bool) :
    Complete text (Reads text accepts) fun s k => (s.advance? accepts).bind k := by
  rintro s k j on ⟨rfl, c, next, accepted⟩ through
  obtain ⟨s', moves⟩ := on.advances next accepted
  obtain ⟨on', position_eq, -⟩ := on.of_advance moves
  simpa [moves] using through s' on' position_eq

/-! ### Loops -/

/-- A loop goes on through one more match of its body, or it ends where it is. -/
theorem loop_eq_some {c : Cursor}
    (ran : loop body least most greedy (fuel + 1) count last s k = some c) :
    (∃ last', (count < least ∨ ∀ bound ∈ most, count < bound) ∧
      (body s fun s' => loop body least most greedy fuel (count + 1) last' s' k) = some c) ∨
    least ≤ count ∧ k s = some c := by
  rw [loop] at ran
  split at ran
  case isTrue few => exact .inl ⟨last, .inl few, ran⟩
  case isFalse enough =>
    have again (ran : (if (most.map (decide <| count < ·)).getD true && last != some s.position
        then body s fun s' => loop body least most greedy fuel (count + 1)
          (some s.position) s' k
        else none) = some c) :
        ∃ last', (count < least ∨ ∀ bound ∈ most, count < bound) ∧
          (body s fun s' => loop body least most greedy fuel (count + 1) last' s' k) = some c := by
      split at ran
      case isFalse => cases ran
      case isTrue may =>
        refine ⟨some s.position, .inr fun bound is_bound => ?_, ran⟩
        obtain rfl : most = some bound := is_bound
        simpa using (Bool.and_eq_true_iff.mp may).1
    split at ran
    · rcases Option.or_eq_some_iff.mp ran with ran | ⟨-, kept⟩
      exacts [.inl (again ran), .inr ⟨by omega, kept⟩]
    · split at ran
      case h_1 result kept => exact .inr ⟨by omega, kept.trans ran⟩
      case h_2 => exact .inl (again ran)

/-- With fuel for the least number of matches, a loop ends only after an allowed number. -/
theorem loop_sound (sound : Sound text Step body) {c : Cursor} (on : s.On text)
    (fueled : least ≤ count + fuel) (allowed : ∀ bound ∈ most, count ≤ max least bound)
    (ran : loop body least most greedy fuel count last s k = some c) :
    ∃ s', s'.On text ∧ Counted Step least most count s.position s'.position ∧ k s' = some c := by
  induction fuel generalizing count last s with
  | zero => exact ⟨s, on, .stop fueled allowed, ran⟩
  | succ fuel ih =>
    rcases loop_eq_some ran with ⟨last', fewer, ran⟩ | ⟨enough, kept⟩
    · obtain ⟨t, on_t, first, ran⟩ := sound on ran
      have allowed' (bound) (is_bound : bound ∈ most) : count + 1 ≤ max least bound := by
        rcases fewer with few | fewer
        · omega
        · have := fewer bound is_bound
          omega
      obtain ⟨s', on', rest, kept⟩ := ih on_t (by omega) allowed' ran
      exact ⟨s', on', .more first rest, kept⟩
    · exact ⟨s, on, .stop enough allowed, kept⟩

/-- A loop with enough matches of its body comes through if what follows accepts the place. -/
theorem loop_isSome_of_stop (enough : least ≤ count) (kept : (k s).isSome) :
    (loop body least most greedy fuel count last s k).isSome := by
  cases fuel with
  | zero => exact kept
  | succ fuel =>
    rw [loop, if_neg (by omega)]
    cases greedy with
    | true => simp [Option.isSome_or, kept]
    | false =>
      obtain ⟨c, kept⟩ := Option.isSome_iff_exists.mp kept
      simp [kept]

/-- A loop with enough matches of its body comes through if one more match does. -/
theorem loop_isSome_of_again (enough : least ≤ count) (fewer : ∀ bound ∈ most, count < bound)
    (moved : last ≠ some s.position)
    (again : (body s fun s' =>
      loop body least most greedy fuel (count + 1) (some s.position) s' k).isSome) :
    (loop body least most greedy (fuel + 1) count last s k).isSome := by
  have may : ((most.map (decide <| count < ·)).getD true && last != some s.position) = true := by
    cases most with
    | none => simpa using moved
    | some bound => simpa using ⟨fewer bound rfl, moved⟩
  rw [loop, if_neg (by omega)]
  simp only [may, if_true]
  cases greedy with
  | true => simp [Option.isSome_or, again]
  | false =>
    cases k s with
    | none => simpa using again
    | some c => simp

/-- Beyond the least number, a loop comes through along matches that all consume something. -/
theorem loop_complete_beyond (complete : Complete text Step body)
    (within : ∀ {i j}, Step i j → i ≤ text.length → j ≤ text.length) {n : Nat} (on : s.On text)
    (enough : least ≤ count) (allowed : ∀ bound ∈ most, count + n ≤ max least bound)
    (fueled : text.length ≤ s.position + fuel) (moved : last ≠ some s.position)
    (steps : Repeats (fun i j => Step i j ∧ i < j) n s.position j)
    (through : ∀ s', s'.On text → s'.position = j → (k s').isSome) :
    (loop body least most greedy fuel count last s k).isSome := by
  induction fuel generalizing n count last s with
  | zero =>
    cases n with
    | zero => exact loop_isSome_of_stop enough (through s on steps)
    | succ n =>
      -- The cursor is at the end of the text, where nothing can be consumed.
      obtain ⟨m, ⟨first, lt⟩, rest⟩ := steps
      have := within first on.position_le
      omega
  | succ fuel ih =>
    cases n with
    | zero => exact loop_isSome_of_stop enough (through s on steps)
    | succ n =>
      obtain ⟨m, ⟨first, lt⟩, rest⟩ := steps
      refine loop_isSome_of_again enough (fun bound is_bound => ?_) moved
        (complete on first fun t on_t at_m => ?_)
      · have := allowed bound is_bound
        omega
      · subst at_m
        refine ih on_t (by omega) (fun bound is_bound => ?_) (by omega) ?_ rest
        · have := allowed bound is_bound
          omega
        · intro same
          have : s.position = t.position := by simpa using same
          omega

/-- A loop with fuel for the least number of matches and for those that consume something comes
through wherever an allowed number of matches leads. -/
theorem loop_complete (complete : Complete text Step body) (forward : ∀ {i j}, Step i j → i ≤ j)
    (within : ∀ {i j}, Step i j → i ≤ text.length → j ≤ text.length) (on : s.On text)
    (fueled : (least - count) + (text.length - s.position) ≤ fuel)
    (steps : Counted Step least most count s.position j)
    (through : ∀ s', s'.On text → s'.position = j → (k s').isSome) :
    (loop body least most greedy fuel count none s k).isSome := by
  -- While the least number is not reached, each match of the body takes one unit of fuel for it.
  induction lacking : least - count generalizing fuel count s with
  | zero =>
    obtain ⟨n, -, allowed, steps⟩ := steps
    obtain ⟨n', fewer, steps⟩ := steps.advancing forward
    refine loop_complete_beyond complete within on (by omega) (fun bound is_bound => ?_) (by omega)
      (by simp) steps through
    have := allowed bound is_bound
    omega
  | succ lack ih =>
    obtain ⟨m, first, rest⟩ := steps.first (by omega)
    obtain ⟨fuel, rfl⟩ : ∃ left, fuel = left + 1 := ⟨fuel - 1, by omega⟩
    rw [loop, if_pos (by omega)]
    refine complete on first fun t on_t at_m => ?_
    subst at_m
    have := forward first
    exact ih on_t (by omega) rest (by omega)

/-! ### Patterns -/

theorem Matches.le_length {p : Pattern} :
    ∀ {i j}, Matches flags text p i j → i ≤ text.length → j ≤ text.length := by
  induction p with
  | empty => exact fun h le => h ▸ le
  | char | any | set => exact fun h _ => Reads.le_length h
  | anchor => exact fun h le => h.1 ▸ le
  | seq p q first second => exact fun ⟨m, h, h'⟩ le => second h' (first h le)
  | either p q first second => exact fun h le => h.elim (first · le) (second · le)
  | group _ p ih => exact ih
  | repeated p least most greedy ih => exact fun ⟨n, _, _, h⟩ => h.le_length ih

/-- A pattern comes through only at places where it matches. -/
theorem run_sound (p : Pattern) : Sound text (Matches flags text p) (run flags p) := by
  induction p with
  | empty => exact fun {s _ _} on ran => ⟨s, on, rfl, ran⟩
  | char c => exact sound_advance (acceptsChar flags c)
  | any => exact sound_advance fun c => flags.dotAll || c != '\n'
  | set negated items => exact sound_advance (acceptsSet flags negated items)
  | anchor a =>
    intro s k c on ran
    rw [run] at ran
    split at ran
    case isTrue here => exact ⟨s, on, ⟨rfl, on.satisfies_eq flags.multiLine a ▸ here⟩, ran⟩
    case isFalse => cases ran
  | seq p q first second =>
    intro s k c on ran
    obtain ⟨t, on_t, first, ran⟩ := first on ran
    obtain ⟨s', on', second, kept⟩ := second on_t ran
    exact ⟨s', on', ⟨t.position, first, second⟩, kept⟩
  | either p q first second =>
    intro s k c on ran
    rw [run] at ran
    split at ran
    case h_1 result found =>
      obtain ⟨s', on', first, kept⟩ := first on (found.trans ran)
      exact ⟨s', on', .inl first, kept⟩
    case h_2 =>
      obtain ⟨s', on', second, kept⟩ := second on ran
      exact ⟨s', on', .inr second, kept⟩
  | group number p ih =>
    intro s k c on ran
    obtain ⟨s', on', steps, kept⟩ := ih on ran
    exact ⟨s'.close number s.position, on'.close number s.position, steps, kept⟩
  | repeated p least most greedy ih =>
    intro s k c on ran
    exact loop_sound ih on (by omega) (by simp) ran

/-- A pattern comes through if what follows accepts a place up to which it matches. -/
theorem run_complete (p : Pattern) : Complete text (Matches flags text p) (run flags p) := by
  induction p with
  | empty => exact fun {s _ _} on here through => through s on here
  | char c => exact complete_advance (acceptsChar flags c)
  | any => exact complete_advance fun c => flags.dotAll || c != '\n'
  | set negated items => exact complete_advance (acceptsSet flags negated items)
  | anchor a =>
    intro s k j on ⟨same, here⟩ through
    rw [run, if_pos (on.satisfies_eq flags.multiLine a ▸ here)]
    exact through s on same
  | seq p q first second =>
    intro s k j on ⟨m, steps, rest⟩ through
    exact first on steps fun t on_t at_m => second on_t (at_m ▸ rest) through
  | either p q first second =>
    intro s k j on steps through
    rw [run]
    rcases steps with steps | steps
    · obtain ⟨c, came⟩ := Option.isSome_iff_exists.mp (first on steps through)
      simp [came]
    · split
      · rfl
      · exact second on steps through
  | group number p ih =>
    intro s k j on steps through
    exact ih on steps fun t on_t at_j =>
      through (t.close number s.position) (on_t.close number s.position) at_j
  | repeated p least most greedy ih =>
    intro s k j on steps through
    have := on.after_eq
    exact loop_complete ih Matches.le Matches.le_length on (by simp [this]) steps through

end

end Pattern

/-! ## Searching -/

namespace Regex

/-- Whether a pattern has a match, be it empty, anywhere in a text. -/
def Occurs (r : Regex) (text : String) : Prop :=
  ∃ i ≤ text.toList.length, ∃ j, r.pattern.Matches r.flags text.toList i j

/-- What a search has to find: a match that begins at the leftmost place where one does. -/
structure Finds (r : Regex) (text : String) (f : Found) : Prop where
  matches_between : r.pattern.Matches r.flags text.toList f.start f.stop
  leftmost : ∀ i < f.start, ∀ j, ¬ r.pattern.Matches r.flags text.toList i j
  within : f.start ≤ f.stop ∧ f.stop ≤ text.toList.length
  text_eq : f.text = piece text.toList f.start f.stop
  groups_length : f.groups.length = r.groups

variable {r : Regex} {text before after : List Char} {position : Nat} {f : Found}

theorem on_start (split : before.reverse ++ after = text) :
    Cursor.On text { before, after, position := before.length } :=
  ⟨split, rfl⟩

theorem matches_of_matchAt (split : before.reverse ++ after = text)
    (found : r.matchAt text before after before.length = some f) :
    f.start = before.length ∧ r.pattern.Matches r.flags text f.start f.stop ∧
      f.start ≤ f.stop ∧ f.stop ≤ text.length ∧
      f.text = piece text f.start f.stop ∧ f.groups.length = r.groups := by
  obtain ⟨c, ran, rfl⟩ := Option.map_eq_some_iff.mp found
  obtain ⟨s, on, steps, kept⟩ := Pattern.run_sound r.pattern (on_start split) ran
  cases kept
  exact ⟨rfl, steps, steps.le, on.position_le, rfl, by simp [Regex.found]⟩

theorem matchAt_eq_none_iff (split : before.reverse ++ after = text) :
    r.matchAt text before after before.length = none ↔
      ∀ j, ¬ r.pattern.Matches r.flags text before.length j := by
  constructor
  · intro none_found j steps
    have := Pattern.run_complete r.pattern (k := some) (on_start split) steps (by simp)
    rw [matchAt, Option.map_eq_none_iff] at none_found
    simp [none_found] at this
  · intro none_there
    rw [Option.eq_none_iff_forall_ne_some]
    intro f found
    obtain ⟨start_eq, steps, -⟩ := matches_of_matchAt split found
    exact none_there f.stop (start_eq ▸ steps)

/-- A search from a place on finds nothing only if nothing matches there or later. -/
theorem searchFrom_eq_none (split : before.reverse ++ after = text)
    (nothing : r.searchFrom text before before.length after = none) :
    ∀ i, before.length ≤ i → i ≤ text.length → ∀ j, ¬ r.pattern.Matches r.flags text i j := by
  induction after generalizing before with
  | nil =>
    intro i from_here to_end
    have length_eq : text.length = before.length := by simp [← split]
    obtain rfl : i = before.length := by omega
    exact (matchAt_eq_none_iff split).mp nothing
  | cons c after ih =>
    rw [searchFrom] at nothing
    split at nothing
    case h_1 => cases nothing
    case h_2 not_here =>
      intro i from_here to_end
      rcases from_here.eq_or_lt with rfl | later
      · exact (matchAt_eq_none_iff split).mp not_here
      · have split' : (c :: before).reverse ++ after = text := by simpa using split
        exact ih split' nothing i later to_end

/-- A search from a place on finds a match at the first place that has one. -/
theorem finds_of_searchFrom (split : before.reverse ++ after = text)
    (found : r.searchFrom text before before.length after = some f) :
    ∃ before' after', before'.reverse ++ after' = text ∧
      r.matchAt text before' after' before'.length = some f ∧
      ∀ i, before.length ≤ i → i < before'.length → ∀ j, ¬ r.pattern.Matches r.flags text i j := by
  induction after generalizing before with
  | nil => exact ⟨before, [], split, found, fun i from_here to_there => by omega⟩
  | cons c after ih =>
    rw [searchFrom] at found
    split at found
    case h_1 g here =>
      cases found
      exact ⟨before, c :: after, split, here, fun i from_here to_there => by omega⟩
    case h_2 not_here =>
      have moved : (c :: before).reverse ++ after = text := by simpa using split
      obtain ⟨before', after', split', there, earlier⟩ := ih moved found
      refine ⟨before', after', split', there, fun i from_here to_there => ?_⟩
      rcases from_here.eq_or_lt with rfl | later
      · exact (matchAt_eq_none_iff split).mp not_here
      · exact earlier i later to_there

/-- A search finds a match at the leftmost place that has one. -/
theorem finds_of_search {text : String} (found : r.search text = some f) : r.Finds text f := by
  have start : ([] : List Char).reverse ++ text.toList = text.toList := rfl
  obtain ⟨before, after, split, there, earlier⟩ := finds_of_searchFrom start found
  obtain ⟨start_eq, steps, forward, within, text_eq, groups⟩ := matches_of_matchAt split there
  exact ⟨steps, fun i lt => earlier i (Nat.zero_le i) (start_eq ▸ lt), ⟨forward, within⟩, text_eq,
    groups⟩

/-- A search succeeds exactly if the pattern occurs in the text. -/
theorem search_isSome_iff {text : String} : (r.search text).isSome ↔ r.Occurs text := by
  constructor
  · intro found
    obtain ⟨f, found⟩ := Option.isSome_iff_exists.mp found
    have finds := finds_of_search found
    exact ⟨f.start, finds.within.1.trans finds.within.2, f.stop, finds.matches_between⟩
  · rintro ⟨i, within, j, steps⟩
    rw [Option.isSome_iff_ne_none]
    intro nothing
    have start : ([] : List Char).reverse ++ text.toList = text.toList := rfl
    exact searchFrom_eq_none start nothing i (Nat.zero_le i) within j steps

end Regex
end UpdateDispatch
