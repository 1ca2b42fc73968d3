import UpdateDispatch.Fault
import UpdateDispatch.Text.Class

/-!
# Rules for the values of fields

What a field takes: a whole number, a flag, a text. The rules are lenient. A whole number may be
given as a flag, as a double without a fraction or as a text of digits, and a flag as one of a few
words or as a zero or one.

`Checked` collects the faults of all fields: `Checked.ap` goes on after a fault, so that the faults
of a record are those of its fields in order.
-/

namespace UpdateDispatch

/-- A checked value, or all that is wrong with it. -/
def Checked (α : Type) : Type := Except (List FieldFault) α

namespace Checked

/-- A checked function on a checked value; the faults of both are kept. -/
def ap {α β : Type} (f : Checked (α → β)) (a : Checked α) : Checked β :=
  match f, a with
  | .ok f, .ok a => .ok (f a)
  | .ok _, .error faults => .error faults
  | .error faults, .ok _ => .error faults
  | .error faults, .error more => .error (faults ++ more)

/-- A function applied to a checked value. -/
def map {α β : Type} (f : α → β) (a : Checked α) : Checked β := Except.map f a

/-- A checked value that has to satisfy one more rule. -/
def andThen {α β : Type} (a : Checked α) (f : α → Checked β) : Checked β :=
  match a with
  | .ok a => f a
  | .error faults => .error faults

/-- Checked values, in order. -/
def all {α : Type} : List (Checked α) → Checked (List α)
  | [] => .ok []
  | a :: rest => (a.map List.cons).ap (all rest)

end Checked

namespace Settings

/-- The place of a field inside another. -/
def within (place name : String) : String := if place.isEmpty then name else place ++ "." ++ name

/-- The answer of a rule, with its place. -/
def checkedAt {α : Type} (place : String) (answer : Except FieldCause α) : Checked α :=
  answer.mapError fun cause => [{ place, cause }]

/-- The bound on whole numbers that come as doubles, and on those that are flags. -/
def wideBound : Int := (1 <<< 63 : Nat)

/-- The longest text that is read as a whole number. -/
def maxNumberText : Nat := 4300

/-- White space around a number. Separators of records are none. -/
def isPadding (c : Char) : Bool := Text.isBlank c && !(28 ≤ c.toNat && c.toNat ≤ 31)

/-- A text without white space at its ends. -/
def unpadded (cs : List Char) : List Char :=
  ((cs.dropWhile isPadding).reverse.dropWhile isPadding).reverse

/-- The digits of a number in which single underscores may stand between digits. -/
def groupedDigits? : List Char → Option (List Char)
  | [] => none
  | [c] => if c.isDigit then some [c] else none
  | c :: d :: rest =>
    if !c.isDigit then none
    else if d = '_' then (groupedDigits? rest).map (c :: ·)
    else (groupedDigits? (d :: rest)).map (c :: ·)

/-- Whether nothing, or a point and only zeros, follows the whole part of a number. -/
def isZeroFraction : List Char → Bool
  | [] => true
  | c :: rest => c == '.' && rest.all (· == '0')

/-- The whole number that a text without a sign writes. -/
def unsigned? (cs : List Char) : Option Nat :=
  let (whole, rest) := cs.span (· != '.')
  if isZeroFraction rest then
    (groupedDigits? whole).map fun ds =>
      ds.foldl (fun n d => n * 10 + (d.toNat - '0'.toNat)) 0
  else none

/-- The whole number that a text writes. -/
def wholeNumber? (cs : List Char) : Option Int :=
  match cs with
  | '-' :: rest => (unsigned? rest).map fun n => -(n : Int)
  | '+' :: rest => (unsigned? rest).map fun n => (n : Int)
  | cs => (unsigned? cs).map fun n => (n : Int)

/-- The whole number that a double is. -/
def doubleInteger (x : Double) : Except FieldCause Int :=
  match x with
  | .undefined | .infinite _ => .error .notFinite
  | x =>
    match x.toInt? with
    | none => .error .fraction
    | some n => if -wideBound < n ∧ n < wideBound then .ok n else .error .tooLarge

/-- A whole number. -/
def integer (v : Json) : Except FieldCause Json :=
  match v with
  | .int n => .ok (.int n)
  | .bool b => .ok (.int (if b then 1 else 0))
  | .float x => (doubleInteger x).map Json.int
  | .str s =>
    let cs := unpadded s.toList
    if maxNumberText < cs.length then .error .tooLarge
    else
      match wholeNumber? cs with
      | some n => .ok (.int n)
      | none => .error .noIntegerText
  | _ => .error .noInteger

/-- The words for a set flag. -/
def setWords : List String := ["1", "t", "y", "on", "yes", "true"]

/-- The words for a flag that is not set. -/
def unsetWords : List String := ["0", "f", "n", "no", "off", "false"]

/-- The flag that a whole number stands for. -/
def integerFlag (n : Int) : Except FieldCause Bool :=
  if n = 0 then .ok false else if n = 1 then .ok true else .error .noFlagText

/-- A flag as a truth value. -/
def truth (v : Json) : Except FieldCause Bool :=
  match v with
  | .bool b => .ok b
  | .str s =>
    let word := s.map Char.toLower
    if unsetWords.contains word then .ok false
    else if setWords.contains word then .ok true
    else .error .noFlagText
  | .int n => if -wideBound ≤ n ∧ n < wideBound then integerFlag n else .error .noFlag
  | .float x =>
    match doubleInteger x with
    | .ok n => integerFlag n
    | .error _ => .error .noFlag
  | _ => .error .noFlag

/-- A flag. -/
def flag (v : Json) : Except FieldCause Json := (truth v).map Json.bool

/-- A text. -/
def text (v : Json) : Except FieldCause Json :=
  match v with
  | .str s => .ok (.str s)
  | _ => .error .noText

/-- A text, or null. -/
def optionalText (v : Json) : Except FieldCause Json :=
  match v with
  | .null => .ok .null
  | v => text v

end Settings
end UpdateDispatch
