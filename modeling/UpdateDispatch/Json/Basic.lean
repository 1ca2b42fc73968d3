import UpdateDispatch.Named
import UpdateDispatch.Number.Double

/-!
# JSON values

Values as updates and settings hold them: whole numbers of any size, doubles, and objects whose
fields keep the order in which they came. An object made by `Json.ofFields` has every key once,
at its first place and with its last value.

`Json.truthy` is the test of the filters: null, false, zeros and whatever is empty are falsy.
`Json.same` is equality of values: numbers are compared as numbers, with true and false as one and
zero, and the order of fields does not count.
-/

namespace UpdateDispatch

/-- A JSON value. -/
inductive Json where
  | null
  | bool (b : Bool)
  | int (n : Int)
  | float (x : Double)
  | str (s : String)
  | arr (items : List Json)
  | obj (fields : List (String × Json))
  deriving Repr, Inhabited

namespace Json

/-- An object of fields given in order; of equal keys the last value counts. -/
def ofFields (fields : List (String × Json)) : Json :=
  .obj (fields.foldl (fun acc (k, v) => Named.set k v acc) [])

/-- The field of an object; null if it is missing or if the value is not an object. -/
def field (v : Json) (key : String) : Json :=
  match v with
  | .obj fields => (Named.find? key fields).getD .null
  | _ => .null

/-- Whether a value is null. -/
def isNull : Json → Bool
  | .null => true
  | _ => false

/-- Whether a value counts as true. -/
def truthy : Json → Bool
  | .null => false
  | .bool b => b
  | .int n => n != 0
  | .float x => !x.isZero
  | .str s => !s.isEmpty
  | .arr items => !items.isEmpty
  | .obj fields => !fields.isEmpty

/-- The word for the type of a value. -/
def typeName : Json → String
  | .null => "NoneType"
  | .bool _ => "bool"
  | .int _ => "int"
  | .float _ => "float"
  | .str _ => "str"
  | .arr _ => "list"
  | .obj _ => "dict"

/-- The first value that is not null, or null. -/
def firstPresent : List Json → Json
  | [] => .null
  | v :: rest => if v.isNull then firstPresent rest else v

/-- The value itself if it counts as true, else an empty object. -/
def orEmpty (v : Json) : Json := if v.truthy then v else .obj []

/-- The number that a value stands for in comparisons, when it is a whole number. -/
def asInt? : Json → Option Int
  | .bool b => some (if b then 1 else 0)
  | .int n => some n
  | .float x => x.toInt?
  | _ => none

mutual

/-- Equality of values. -/
def same : Json → Json → Bool
  | .null, .null => true
  | .str s, .str t => s == t
  | .arr xs, .arr ys => sameItems xs ys
  | .obj xs, .obj ys => xs.length == ys.length && sameFields xs ys
  | .float x, .float y => x.numEq y
  | .bool b, w => (Json.bool b).asInt? == w.asInt?
  | .int n, w => some n == w.asInt?
  | .float x, .bool b => x.toInt? == some (if b then 1 else 0)
  | .float x, .int n => x.toInt? == some n
  | _, _ => false

/-- Equality of lists, item by item. -/
def sameItems : List Json → List Json → Bool
  | [], [] => true
  | x :: xs, y :: ys => same x y && sameItems xs ys
  | _, _ => false

/-- Whether every field of the first list has an equal one in the second. -/
def sameFields : List (String × Json) → List (String × Json) → Bool
  | [], _ => true
  | (k, v) :: rest, ys =>
    (match Named.find? k ys with
      | some w => same v w
      | none => false) && sameFields rest ys

end

/-- Whether a value can be a key or a member of a set: lists and objects cannot. -/
def isKey : Json → Bool
  | .arr _ | .obj _ => false
  | _ => true

/-- Whether a value equals one of a list. -/
def isIn (v : Json) (vs : List Json) : Bool := vs.any (v.same ·)

end Json
end UpdateDispatch
