import UpdateDispatch.Text.Case
import Mathlib

/-!
# The case of lower-case letters and digits

Lower-case letters and digits of ASCII are their own lower case, and of them exactly the letters
have another upper case, from which lower case leads back. Each fact is checked for the 128
characters of ASCII (`forall_plain`).
-/

namespace UpdateDispatch.Text

/-- Whether a character is a lower-case letter or a digit of ASCII. -/
def isPlain (c : Char) : Bool := c.isLower || c.isDigit

theorem isPlain_of_isLower {c : Char} (h : c.isLower = true) : isPlain c = true := by
  simp [isPlain, h]

theorem toNat_lt_of_isPlain {c : Char} (h : isPlain c = true) : c.toNat < 128 := by
  simp only [isPlain, Char.isLower, Char.isDigit, Bool.or_eq_true, Bool.and_eq_true,
    decide_eq_true_eq, ge_iff_le, UInt32.le_iff_toNat_le] at h
  have last : c.val.toNat ≤ 'z'.toNat := by
    obtain lower | digit := h
    · exact lower.2
    · exact digit.2.trans (by decide)
  exact last.trans_lt (by decide)

/-- What holds of the plain characters of ASCII holds of all plain characters. -/
theorem forall_plain {p : Char → Prop}
    (h : ∀ n < 128, isPlain (Char.ofNat n) = true → p (Char.ofNat n)) (c : Char)
    (hc : isPlain c = true) : p c := by
  have holds := h c.toNat (toNat_lt_of_isPlain hc)
  rw [Char.ofNat_toNat] at holds
  exact holds hc

variable {c : Char}

theorem isCased_plain : ∀ c, isPlain c = true → isCased c = c.isLower := forall_plain (by decide)

theorem isDigit_plain : ∀ c, isPlain c = true → c.isDigit = !c.isLower := forall_plain (by decide)

theorem isUpper_plain : ∀ c, isPlain c = true → isUpper c = false := forall_plain (by decide)

theorem ne_underscore_plain : ∀ c, isPlain c = true → c ≠ '_' := forall_plain (by decide)

theorem titleChar_plain : ∀ c, isPlain c = true → titleChar c = [c.toUpper] :=
  forall_plain (by decide)

/-- Only letters have an upper case. -/
theorem isUpper_toUpper_plain : ∀ c, isPlain c = true → isUpper c.toUpper = c.isLower :=
  forall_plain (by decide)

/-- No plain character is a capital sigma, so its neighbours do not count. -/
theorem lowerBetween_plain (before : List Char) (hc : isPlain c = true) (after : List Char) :
    lowerBetween before c after = [c] := by
  have lower : ∀ c, isPlain c = true → (c == 'Σ') = false ∧ lowerChar c = [c] :=
    forall_plain (by decide)
  simp [lowerBetween, lower c hc]

/-- Lower case leads back from the upper case of a plain character. -/
theorem lowerBetween_toUpper (before : List Char) (hc : isPlain c = true) (after : List Char) :
    lowerBetween before c.toUpper after = [c] := by
  have lower : ∀ c, isPlain c = true → (c.toUpper == 'Σ') = false ∧ lowerChar c.toUpper = [c] :=
    forall_plain (by decide)
  simp [lowerBetween, lower c hc]

end UpdateDispatch.Text
