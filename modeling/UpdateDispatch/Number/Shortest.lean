import UpdateDispatch.Number.Double

/-!
# The shortest decimal that reads back

`Double.shortest` finds the fewest decimal digits whose value reads back as the given double, and
of those the nearest. `Double.text` lays them out: positional from `0.0001` up to below `10 ^ 16`,
with an exponent outside that range.
-/

namespace UpdateDispatch.Double

/-- The least `k` with `num < den * 10 ^ k`, counted up from `k`. -/
def magnitudeFrom (num den : Nat) : Nat → Int → Int
  | 0, k => k
  | fuel + 1, k =>
    let below := if 0 ≤ k then decide (num < den * Nat.pow 10 k.toNat)
      else decide (num * Nat.pow 10 (-k).toNat < den)
    if below then k else magnitudeFrom num den fuel (k + 1)

/-- The `k` with `10 ^ (k - 1) ≤ num / den < 10 ^ k`, for a positive double. The logarithm to base
two gives a start that is at most the answer. -/
def magnitude (num den : Nat) : Int :=
  let log2 : Int := (num.log2 : Int) - (den.log2 : Int) - 1
  let start := (log2 * 30103) / 100000 - 2
  magnitudeFrom num den 700 start

/-- `num / den` in units of `10 ^ unit`, as a quotient of natural numbers. -/
def inUnits (num den : Nat) (unit : Int) : Nat × Nat :=
  if 0 ≤ unit then (num, den * Nat.pow 10 unit.toNat) else (num * Nat.pow 10 (-unit).toNat, den)

/-- The point of the grid `10 ^ unit` that reads back as `x` and is nearest to it. -/
def onGrid? (x : Double) (unit : Int) : Option Nat :=
  let (n, d) := inUnits x.ratio.1 x.ratio.2 unit
  let low := n / d
  let reads (c : Nat) : Bool := ofDecimal false c unit == x
  match reads low, reads (low + 1) with
  | true, true =>
    let r := 2 * (n % d)
    some (if r < d then low else if d < r then low + 1 else if low % 2 = 0 then low else low + 1)
  | true, false => some low
  | false, true => some (low + 1)
  | false, false => none

/-- The first grid, from coarse to fine, on which a positive double has a point that reads back. -/
def shortestFrom (x : Double) (top : Int) : Nat → Nat → Nat × Int
  | 0, digits => (((x.onGrid? (top - digits)).getD 0), top - digits)
  | fuel + 1, digits =>
    match x.onGrid? (top - digits) with
    | some c => (c, top - digits)
    | none => shortestFrom x top fuel (digits + 1)

/-- The fewest digits that read back, and the power of ten of the last one. -/
def shortest (x : Double) : Nat × Int :=
  shortestFrom x (magnitude x.ratio.1 x.ratio.2) 16 1

/-- Drops the zeros at the end of a list of digits that comes last digit first. -/
def dropZeros : List Char → List Char
  | '0' :: rest => dropZeros rest
  | digits => digits

/-- The layout of digits `0.d₁d₂… * 10 ^ point`. -/
def layout (digits : List Char) (point : Int) : String :=
  if -4 < point ∧ point ≤ 16 then
    if point ≤ 0 then
      "0." ++ String.ofList (List.replicate (-point).toNat '0' ++ digits)
    else
      let n := point.toNat
      if digits.length ≤ n then
        String.ofList (digits ++ List.replicate (n - digits.length) '0') ++ ".0"
      else String.ofList (digits.take n) ++ "." ++ String.ofList (digits.drop n)
  else
    let e := point - 1
    let size := Nat.toDigits 10 e.natAbs
    let size := if size.length < 2 then '0' :: size else size
    let mantissa := match digits with
      | [] => ""
      | [d] => String.ofList [d]
      | d :: rest => String.ofList (d :: '.' :: rest)
    mantissa ++ "e" ++ (if e < 0 then "-" else "+") ++ String.ofList size

/-- The text of a double: its shortest digits, or `nan`, `inf`, `-inf`. -/
def text (x : Double) : String :=
  match x with
  | .undefined => "nan"
  | .infinite negative => if negative then "-inf" else "inf"
  | .finite negative m e =>
    let sign := if negative then "-" else ""
    if m = 0 then sign ++ "0.0" else
    let (c, unit) := shortest (.finite false m e)
    let all := Nat.toDigits 10 c
    let point := (all.length : Int) + unit
    sign ++ layout (dropZeros all.reverse).reverse point

end UpdateDispatch.Double
