import UpdateDispatch.Json.Printer
import UpdateDispatch.Json.Reader
import Mathlib.Data.List.TakeDrop
import Mathlib.Data.Nat.Digits.Defs

/-!
# Whole numbers read back

A whole number is written in decimal digits, behind a minus sign if it is negative. The reader
takes digits as long as there are any, so what follows must not go on with the number:
`EndsNumber`. Numbers of more than `maxDigits` digits are refused, and all others are read as what
they are (`readScalar_toString`).
-/

namespace UpdateDispatch.Json

/-- A text at which a whole number ends: no digit, point or exponent goes on with it. -/
def EndsNumber (cs : List Char) : Prop :=
  ∀ c ∈ cs.head?, c.isDigit = false ∧ c ≠ '.' ∧ c ≠ 'e' ∧ c ≠ 'E'

theorem EndsNumber.nil : EndsNumber [] := by
  simp [EndsNumber]

theorem EndsNumber.cons {c : Char} (cs : List Char)
    (h : c.isDigit = false ∧ c ≠ '.' ∧ c ≠ 'e' ∧ c ≠ 'E') : EndsNumber (c :: cs) := by
  simpa [EndsNumber] using h

/-! ## Digits -/

theorem digitsValue_toDigits (n : Nat) : digitsValue (Nat.toDigits 10 n) = n := by
  have h := Nat.ofDigitChars_toDigits (b := 10) (n := n) (by decide) (by decide)
  simpa only [digitsValue, Nat.ofDigitChars, Nat.mul_comm] using h

/-- Only zero is written with a zero in front. -/
theorem eq_zero_of_toDigits {n : Nat} {cs : List Char} (h : Nat.toDigits 10 n = '0' :: cs) :
    n = 0 := by
  induction n using Nat.strongRecOn generalizing cs with
  | ind n ih =>
    by_cases hn : n < 10
    · rw [Nat.toDigits_of_lt_base hn] at h
      have zero : ∀ m < 10, m.digitChar = '0' → m = 0 := by decide
      exact zero n hn (List.cons.inj h).1
    · rw [Nat.toDigits_of_base_le (by decide) (by omega)] at h
      cases front : Nat.toDigits 10 (n / 10) with
      | nil => exact absurd front Nat.toDigits_ne_nil
      | cons d ds =>
        rw [front] at h
        obtain rfl : d = '0' := (List.cons.inj h).1
        have := ih (n / 10) (by omega) front
        omega

theorem isDigit_of_mem_toDigits {n : Nat} {c : Char} (h : c ∈ Nat.toDigits 10 n) :
    c.isDigit = true :=
  Nat.isDigit_of_mem_toDigits (by decide) (by decide) h

/-- The digits of a number are taken off, and no more. -/
theorem span_toDigits (n : Nat) {rest : List Char} (h : EndsNumber rest) :
    (Nat.toDigits 10 n ++ rest).span Char.isDigit = (Nat.toDigits 10 n, rest) := by
  have digits : ∀ c ∈ Nat.toDigits 10 n, c.isDigit = true := fun c => isDigit_of_mem_toDigits
  rw [List.span_eq_takeWhile_dropWhile, List.takeWhile_append_of_pos digits,
    List.dropWhile_append_of_pos digits]
  cases rest with
  | nil => simp
  | cons c cs =>
    have : c.isDigit = false := (h c rfl).1
    simp [this]

/-! ## Numbers -/

theorem readFraction_of_ends {rest : List Char} (h : EndsNumber rest) :
    readFraction rest = none := by
  cases rest with
  | nil => rfl
  | cons c cs =>
    have : c ≠ '.' := (h c rfl).2.1
    simp [readFraction, this]

theorem readExponent_of_ends {rest : List Char} (h : EndsNumber rest) :
    readExponent rest = none := by
  cases rest with
  | nil => rfl
  | cons c cs =>
    have : c ≠ 'e' ∧ c ≠ 'E' := (h c rfl).2.2
    simp [readExponent, this]

/-- The digits of a number are read as that number. -/
theorem readUnsigned_toDigits (negative : Bool) {n : Nat} {rest : List Char}
    (hn : (Nat.toDigits 10 n).length ≤ maxDigits) (h : EndsNumber rest) :
    readUnsigned negative (Nat.toDigits 10 n ++ rest) =
      .ok (.int (if negative then -(n : Int) else n), rest) := by
  cases hd : Nat.toDigits 10 n with
  | nil => exact absurd hd Nat.toDigits_ne_nil
  | cons d ds =>
    by_cases zero : d = '0'
    · obtain rfl := eq_zero_of_toDigits (zero ▸ hd)
      obtain ⟨rfl, rfl⟩ : d = '0' ∧ ds = [] := by simpa [eq_comm] using hd
      have one : ¬maxDigits < 1 := by decide
      simp [readUnsigned, readFraction_of_ends h, readExponent_of_ends h, digitsValue, one]
    · have span := span_toDigits n h
      rw [hd, List.cons_append] at span
      have value := digitsValue_toDigits n
      rw [hd] at value hn
      have short : ¬ maxDigits < (d :: ds).length := Nat.not_lt.mpr hn
      simp [readUnsigned, zero, span, readFraction_of_ends h, readExponent_of_ends h, value, short,
        -List.span_eq_takeWhile_dropWhile, -List.length_cons]

theorem afterWord?_of_ne {w c : Char} (ws cs : List Char) (h : w ≠ c) :
    afterWord? (w :: ws) (c :: cs) = none := by
  simp [afterWord?, h]

/-- What starts with a sign or a digit is no constant. -/
theorem readScalar_of_number {c : Char} (cs : List Char) (h : c = '-' ∨ c.isDigit = true) :
    readScalar (c :: cs) = readNumber (c :: cs) := by
  have other : ∀ w : Char, w ≠ '-' → w.isDigit = false → w ≠ c := by
    rintro w hm hd rfl
    simp [hm, hd] at h
  simp [readScalar, afterWord?_of_ne _ _ (other 'n' (by decide) (by decide)),
    afterWord?_of_ne _ _ (other 't' (by decide) (by decide)),
    afterWord?_of_ne _ _ (other 'f' (by decide) (by decide)),
    afterWord?_of_ne _ _ (other 'N' (by decide) (by decide)),
    afterWord?_of_ne _ _ (other 'I' (by decide) (by decide))]

/-- A digit is no sign. -/
theorem readNumber_of_digit {d : Char} (ds : List Char) (h : d.isDigit = true) :
    readNumber (d :: ds) = readUnsigned false (d :: ds) := by
  have sign : d ≠ '-' := by
    rintro rfl
    exact absurd h (by decide)
  simp [readNumber, sign]

/-- After a sign, a digit starts no word for infinity. -/
theorem readNumber_of_minus {d : Char} (ds : List Char) (h : d.isDigit = true) :
    readNumber ('-' :: d :: ds) = readUnsigned true (d :: ds) := by
  have other : 'I' ≠ d := by
    rintro rfl
    exact absurd h (by decide)
  have word : afterWord? "Infinity".toList (d :: ds) = none := afterWord?_of_ne _ _ other
  simp only [readNumber, word]

/-- A whole number is a sign and digits. -/
theorem toList_toString (n : Int) :
    (toString n).toList =
      (if n < 0 then ['-'] else []) ++ Nat.toDigits 10 n.natAbs := by
  cases n with
  | ofNat n => simp [toString, Int.repr, Nat.repr_eq_ofList_toDigits]
  | negSucc n => simp [toString, Int.repr, Nat.repr_eq_ofList_toDigits]

/-- A whole number is read from its text. -/
theorem readScalar_toString {n : Int} {rest : List Char}
    (hn : (Nat.toDigits 10 n.natAbs).length ≤ maxDigits) (h : EndsNumber rest) :
    readScalar ((toString n).toList ++ rest) = .ok (.int n, rest) := by
  have number := readUnsigned_toDigits (n < 0) hn h
  rw [toList_toString, List.append_assoc]
  cases hd : Nat.toDigits 10 n.natAbs with
  | nil => exact absurd hd Nat.toDigits_ne_nil
  | cons d ds =>
    have digit : d.isDigit = true := isDigit_of_mem_toDigits (hd ▸ List.mem_cons_self)
    rw [hd, List.cons_append] at number
    rw [List.cons_append]
    by_cases negative : n < 0
    · have value : -(n.natAbs : Int) = n := by omega
      rw [if_pos negative, List.cons_append, List.nil_append, readScalar_of_number _ (.inl rfl),
        readNumber_of_minus _ digit]
      rw [decide_eq_true negative] at number
      rw [number, if_pos rfl, value]
    · have value : (n.natAbs : Int) = n := by omega
      rw [if_neg negative, List.nil_append, readScalar_of_number _ (.inr digit),
        readNumber_of_digit _ digit]
      rw [decide_eq_false negative] at number
      rw [number, if_neg (by decide), value]

end UpdateDispatch.Json
