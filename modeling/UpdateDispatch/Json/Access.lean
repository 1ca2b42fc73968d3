import UpdateDispatch.Fault

/-!
# Access with faults

Looking into values whose shape nothing promises: asking a value that is no object for a field,
iterating over a value that has no items, and cutting a piece out of a text.
-/

namespace UpdateDispatch.Json

/-- The field of an object, null if it is missing; a fault for any other value. -/
def get (v : Json) (key : String) : Except Fault Json :=
  match v with
  | .obj fields => .ok ((Named.find? key fields).getD .null)
  | v => .error (.noAttribute v.typeName "get")

/-- The field of an object, or a default only if it is missing. -/
def getOr (v : Json) (key : String) (default : Json) : Except Fault Json :=
  match v with
  | .obj fields => .ok ((Named.find? key fields).getD default)
  | v => .error (.noAttribute v.typeName "get")

/-- The field of an object that must be there. -/
def require (v : Json) (key : String) : Except Fault Json :=
  match v with
  | .obj fields =>
    match Named.find? key fields with
    | some value => .ok value
    | none => .error (.noKey key)
  | .arr _ => .error (.mismatch "list indices must be integers or slices, not str")
  | .str _ => .error (.mismatch "string indices must be integers, not 'str'")
  | v => .error (.mismatch s!"'{v.typeName}' object is not subscriptable")

/-- The items to iterate over: those of a list, the keys of an object, the characters of a text. -/
def items (v : Json) : Except Fault (List Json) :=
  match v with
  | .arr vs => .ok vs
  | .obj fields => .ok (fields.map fun (k, _) => .str k)
  | .str s => .ok (s.toList.map fun c => .str (String.singleton c))
  | v => .error (.mismatch s!"'{v.typeName}' object is not iterable")

/-- A value that is looked for among keys; a fault for a list or an object. -/
def asKey (v : Json) : Except Fault Json :=
  if v.isKey then .ok v else .error (.mismatch s!"unhashable type: '{v.typeName}'")

/-- The items of a list, or the value itself as the only item. -/
def listed : Json → List Json
  | .arr vs => vs
  | v => [v]

/-- A bound of a slice: null stands for no bound. -/
def bound (v : Json) : Except Fault (Option Int) :=
  match v with
  | .null => .ok none
  | .int n => .ok (some n)
  | .bool b => .ok (some (if b then 1 else 0))
  | _ =>
    .error (.mismatch "slice indices must be integers or None or have an __index__ method")

/-- The place that a bound means among `size` items: negative ones count from the end. -/
def place (size : Nat) (i : Int) : Nat :=
  if i < 0 then (i + size).toNat else min i.toNat size

/-- The items from one bound up to the other. -/
def sliceList {α : Type} (xs : List α) (start stop : Option Int) : List α :=
  let a := (start.map (place xs.length)).getD 0
  let b := (stop.map (place xs.length)).getD xs.length
  (xs.take b).drop a

/-- The part of a text or of a list between two bounds. -/
def slice (v : Json) (start stop : Option Int) : Except Fault Json :=
  match v with
  | .str s => .ok (.str (String.ofList (sliceList s.toList start stop)))
  | .arr vs => .ok (.arr (sliceList vs start stop))
  | .obj _ => .error (.mismatch "unhashable type: 'slice'")
  | v => .error (.mismatch s!"'{v.typeName}' object is not subscriptable")

/-- The sum of two whole numbers as a bound of a slice. Sums of other values are of no use there. -/
def boundSum (v w : Json) : Except Fault (Option Int) :=
  match v, w with
  | .int _, .int _ | .int _, .bool _ | .bool _, .int _ | .bool _, .bool _ => do
    let a ← bound v
    let b ← bound w
    .ok (some (a.getD 0 + b.getD 0))
  | _, _ =>
    .error (.mismatch s!"unsupported operand type(s) for +: '{v.typeName}' and '{w.typeName}'")

end UpdateDispatch.Json
