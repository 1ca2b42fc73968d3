/-!
# Named values

Lists of values under names. The first value of a name counts, and setting a name keeps its place.
-/

namespace UpdateDispatch.Named

/-- The value of a name. -/
def find? {α : Type} (name : String) : List (String × α) → Option α
  | [] => none
  | (key, value) :: rest => if key = name then some value else find? name rest

/-- The list with the value of a name set: in place if the name is there, else at the end. -/
def set {α : Type} (name : String) (value : α) : List (String × α) → List (String × α)
  | [] => [(name, value)]
  | (key, old) :: rest =>
    if key = name then (key, value) :: rest else (key, old) :: set name value rest

end UpdateDispatch.Named
