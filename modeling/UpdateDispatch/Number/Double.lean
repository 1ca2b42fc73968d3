/-!
# Double-precision numbers, held exactly

A `Double` is a sign, an integer mantissa and a power of two, so that comparing, rounding and
printing are exact integer arithmetic. `Double.ofRatio` rounds a quotient to the nearest double,
a tie to the even mantissa, and `Double.ofDecimal` reads `digits * 10 ^ exponent`.
-/

namespace UpdateDispatch

/-- A double-precision number: `finite s m e` stands for `m * 2 ^ e`, negated if `s`. -/
inductive Double where
  | finite (negative : Bool) (mantissa : Nat) (exponent : Int)
  | infinite (negative : Bool)
  | undefined
  deriving DecidableEq, Repr, Inhabited

namespace Double

/-- The number of bits of a mantissa. -/
def precision : Nat := 53

/-- The exponent of the smallest positive double. -/
def minExponent : Int := -1074

/-- The largest exponent that a mantissa of full length can have. -/
def maxExponent : Int := 971

/-- `num * 2 ^ (-e) / den` as a quotient of natural numbers. -/
def scaled (num den : Nat) (e : Int) : Nat × Nat :=
  if 0 ≤ e then (num, den <<< e.toNat) else (num <<< (-e).toNat, den)

/-- The natural number nearest to `num / den`, of two equally near ones the even one. -/
def roundEven (num den : Nat) : Nat :=
  let q := num / den
  let r := num % den
  if 2 * r < den then q
  else if den < 2 * r then q + 1
  else if q % 2 = 0 then q else q + 1

/-- The double nearest to `num / den`, of two equally near ones that with the even mantissa. -/
def ofRatio (negative : Bool) (num den : Nat) : Double :=
  if num = 0 then .finite negative 0 minExponent else
  let guess : Int := (num.log2 : Int) - (den.log2 : Int) - (precision - 1 : Nat)
  let e := max guess minExponent
  let (n, d) := scaled num den e
  let e := if n / d < 1 <<< (precision - 1) ∧ minExponent < e then e - 1 else e
  let (n, d) := scaled num den e
  let m := roundEven n d
  let (m, e) := if m = 1 <<< precision then (1 <<< (precision - 1), e + 1) else (m, e)
  if maxExponent < e then .infinite negative else .finite negative m e

/-- How many decimal digits a natural number has. -/
def digitCount (n : Nat) : Nat := (Nat.toDigits 10 n).length

/-- The double nearest to `digits * 10 ^ exponent`. Exponents far outside the range of doubles
are decided by the order of magnitude alone. -/
def ofDecimal (negative : Bool) (digits : Nat) (exponent : Int) : Double :=
  if digits = 0 then .finite negative 0 minExponent else
  let magnitude := exponent + digitCount digits
  if 400 < magnitude then .infinite negative
  else if magnitude < -400 then .finite negative 0 minExponent
  else if 0 ≤ exponent then ofRatio negative (digits * Nat.pow 10 exponent.toNat) 1
  else ofRatio negative digits (Nat.pow 10 (-exponent).toNat)

/-- The absolute value as a quotient of natural numbers; zero where there is none. -/
def ratio : Double → Nat × Nat
  | .finite _ m e => if 0 ≤ e then (m <<< e.toNat, 1) else (m, 1 <<< (-e).toNat)
  | _ => (0, 1)

/-- The integer that a double is, if it is one. -/
def toInt? (x : Double) : Option Int :=
  match x with
  | .finite negative _ _ =>
    let (n, d) := x.ratio
    if n % d = 0 then
      let i : Int := (n / d : Nat)
      some (if negative then -i else i)
    else none
  | _ => none

/-- Whether a double is a zero of either sign. -/
def isZero : Double → Bool
  | .finite _ m _ => m == 0
  | _ => false

/-- Numerical equality: the two zeros are equal, and `undefined` equals nothing. -/
def numEq : Double → Double → Bool
  | .undefined, _ | _, .undefined => false
  | x, y => (x.isZero && y.isZero) || x == y

end Double
end UpdateDispatch
