import UpdateDispatch.Pattern.Search

/-!
# Triggers

A trigger is a value that the content has to equal, or a pattern to be found anywhere in it.
`firstMatch` gives the result of the first trigger that succeeds. An equality trigger whose value
counts as false has no result that counts, so it never succeeds.
-/

namespace UpdateDispatch

/-- What a content is compared with. -/
inductive Trigger where
  | equals (v : Json)
  | pattern (r : Regex)
  deriving Repr, Inhabited

namespace Trigger

/-- The result of one trigger on a content. Only texts can be searched. -/
def apply (t : Trigger) (content : Json) : Except Fault (Option Matched) :=
  match t with
  | .equals v => .ok (if content.same v && v.truthy then some (.value v) else none)
  | .pattern r =>
    match content with
    | .str s => .ok ((r.search s).map .found)
    | v => .error (.mismatch s!"expected string or bytes-like object, got '{v.typeName}'")

/-- The result of the first trigger that succeeds. -/
def firstMatch (content : Json) : List Trigger → Except Fault (Option Matched)
  | [] => .ok none
  | t :: rest =>
    match t.apply content with
    | .error fault => .error fault
    | .ok (some m) => .ok (some m)
    | .ok none => firstMatch content rest

end Trigger

/-- Whether some trigger succeeds on a content; then the context keeps its result. -/
def Context.matchTriggers (c : Context) (content : Json) (triggers : List Trigger) :
    Except Fault (Bool × Context) := do
  match ← Trigger.firstMatch content triggers with
  | some m => .ok (true, { c with matched := m })
  | none => .ok (false, c)

end UpdateDispatch
