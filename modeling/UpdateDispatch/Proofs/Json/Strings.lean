import UpdateDispatch.Json.Printer
import UpdateDispatch.Json.Reader
import Mathlib.Tactic.SplitIfs

/-!
# Strings read back

The reader undoes the escapes of the printer: after the opening quote, the text that the printer
makes of a string is read as that string (`readChars_text`). The two sides meet in four facts:
one for four hexadecimal digits, one for an escape by number, one for two escapes that stand for a
character beyond the basic plane, and one for a character in any of its forms.
-/

namespace UpdateDispatch

/-! ## Hexadecimal digits -/

/-- One more digit goes to the end. -/
theorem Text.hexPadded_succ {width : Nat} (n : Nat) (h : 0 < width) :
    hexPadded (width + 1) n = hexPadded width (n / 16) ++ [(n % 16).digitChar] := by
  obtain ⟨width, rfl⟩ := Nat.exists_eq_add_one_of_ne_zero (Nat.ne_zero_of_lt h)
  by_cases hn : n < 16
  · have h0 : n / 16 = 0 := by omega
    simp [hexPadded, h0, Nat.mod_eq_of_lt hn, Nat.toDigits_of_lt_base hn, List.replicate_succ']
  · simp [hexPadded, Nat.toDigits_of_base_le (by decide : 1 < 16) (by omega : 16 ≤ n)]

theorem Text.hexPadded_one {n : Nat} (h : n < 16) : hexPadded 1 n = [n.digitChar] := by
  simp [hexPadded, Nat.toDigits_of_lt_base h]

theorem Text.hexPadded_four {n : Nat} (h : n < 0x10000) :
    hexPadded 4 n =
      [(n / 4096).digitChar, (n / 256 % 16).digitChar, (n / 16 % 16).digitChar,
        (n % 16).digitChar] := by
  rw [hexPadded_succ n (by decide), hexPadded_succ _ (by decide), hexPadded_succ _ (by decide),
    hexPadded_one (by omega)]
  simp [Nat.div_div_eq_div_mul]

namespace Json

theorem hexDigit?_digitChar {d : Nat} (h : d < 16) : hexDigit? d.digitChar = some d := by
  revert d
  decide

theorem hexFour?_hexPadded {n : Nat} (h : n < 0x10000) (rest : List Char) :
    hexFour? (Text.hexPadded 4 n ++ rest) = some (n, rest) := by
  have value : ((n / 4096 * 16 + n / 256 % 16) * 16 + n / 16 % 16) * 16 + n % 16 = n := by omega
  simp only [Text.hexPadded_four h, List.cons_append, List.nil_append, hexFour?,
    hexDigit?_digitChar (show n / 4096 < 16 by omega),
    hexDigit?_digitChar (Nat.mod_lt _ (by decide : 16 > 0)), Option.bind_eq_bind,
    Option.bind_some, value]

/-! ## Escapes by number -/

theorem unitEscape_append (n : Nat) (rest : List Char) :
    unitEscape n ++ rest = '\\' :: 'u' :: (Text.hexPadded 4 n ++ rest) := rfl

/-- No character is a surrogate. -/
theorem not_surrogate (c : Char) : c.toNat < 0xD800 ∨ 0xDFFF < c.toNat ∧ c.toNat < 0x110000 := by
  have h := c.valid
  simp only [UInt32.isValidChar, Nat.isValidChar] at h
  exact h

theorem numberEscape?_of_basic {c : Char} (h : c.toNat < 0x10000) (rest : List Char) :
    numberEscape? (Text.hexPadded 4 c.toNat ++ rest) = some (c, rest) := by
  have basic := not_surrogate c
  have high : ¬(0xD800 ≤ c.toNat ∧ c.toNat < 0xDC00) := by omega
  have low : ¬(0xDC00 ≤ c.toNat ∧ c.toNat < 0xE000) := by omega
  simp [numberEscape?, hexFour?_hexPadded h, high, low]

theorem numberEscape?_of_pair (high low : Nat) (hh : 0xD800 ≤ high ∧ high < 0xDC00)
    (hl : 0xDC00 ≤ low ∧ low < 0xE000) (rest : List Char) :
    numberEscape? (Text.hexPadded 4 high ++ (unitEscape low ++ rest)) =
      some (Char.ofNat (joinSurrogates high low), rest) := by
  simp [numberEscape?, unitEscape, hexFour?_hexPadded (show high < 0x10000 by omega),
    hexFour?_hexPadded (show low < 0x10000 by omega), hh, hl]

/-- The two halves of a character beyond the basic plane give it back. -/
theorem joinSurrogates_split {n : Nat} (h : 0x10000 ≤ n) :
    joinSurrogates (0xD800 + (n - 0x10000) / 0x400) (0xDC00 + (n - 0x10000) % 0x400) = n := by
  unfold joinSurrogates
  omega

/-! ## Characters and strings -/

/-- A character that is written as an escape. -/
theorem readChars_escape {c : Char} {fuel : Nat} {cs ds rest rest' : List Char}
    (hc : escape? cs = some (c, rest)) (h : readChars fuel rest = .ok (ds, rest')) :
    readChars (fuel + 1) ('\\' :: cs) = .ok (c :: ds, rest') := by
  have back : '\\' ≠ '"' := by decide
  rw [readChars, if_neg back, if_pos rfl, hc]
  simp [h, bind, Except.bind]

/-- A character that is written as itself. -/
theorem readChars_self {c : Char} {fuel : Nat} {ds rest rest' : List Char} (hq : ¬c = '"')
    (hb : ¬c = '\\') (hc : 0x20 ≤ c.toNat) (h : readChars fuel rest = .ok (ds, rest')) :
    readChars (fuel + 1) (c :: rest) = .ok (c :: ds, rest') := by
  rw [readChars, if_neg hq, if_neg hb, if_neg (Nat.not_lt.mpr hc)]
  simp [h, bind, Except.bind]

theorem escape?_of_basic {c : Char} (h : c.toNat < 0x10000) (rest : List Char) :
    escape? ('u' :: (Text.hexPadded 4 c.toNat ++ rest)) = some (c, rest) :=
  numberEscape?_of_basic h rest

theorem escape?_of_wide {c : Char} (h : 0x10000 ≤ c.toNat) (rest : List Char) :
    escape? ('u' :: (Text.hexPadded 4 (0xD800 + (c.toNat - 0x10000) / 0x400) ++
      (unitEscape (0xDC00 + (c.toNat - 0x10000) % 0x400) ++ rest))) = some (c, rest) := by
  have valid := not_surrogate c
  have pair := numberEscape?_of_pair (0xD800 + (c.toNat - 0x10000) / 0x400)
    (0xDC00 + (c.toNat - 0x10000) % 0x400) (by omega) (by omega) rest
  rw [joinSurrogates_split h, Char.ofNat_toNat] at pair
  exact pair

/-- The text of a character is read as that character. -/
theorem readChars_charText (c : Char) {fuel : Nat} {ds rest rest' : List Char}
    (h : readChars fuel rest = .ok (ds, rest')) :
    readChars (fuel + 1) (charText c ++ rest) = .ok (c :: ds, rest') := by
  unfold charText
  split_ifs with quote back feed ret tab bell page visible basic
  · subst quote
    exact readChars_escape rfl h
  · subst back
    exact readChars_escape rfl h
  · subst feed
    exact readChars_escape rfl h
  · subst ret
    exact readChars_escape rfl h
  · subst tab
    exact readChars_escape rfl h
  · subst bell
    exact readChars_escape rfl h
  · subst page
    exact readChars_escape rfl h
  · exact readChars_self quote back visible.1 h
  · rw [unitEscape_append]
    exact readChars_escape (escape?_of_basic basic rest) h
  · rw [List.append_assoc, unitEscape_append]
    exact readChars_escape (escape?_of_wide (Nat.not_lt.mp basic) rest) h

/-- The text of a string is read as that string, up to its closing quote. -/
theorem readChars_text (cs rest : List Char) (fuel : Nat) (h : cs.length < fuel) :
    readChars fuel (cs.flatMap charText ++ '"' :: rest) = .ok (cs, rest) := by
  induction cs generalizing fuel with
  | nil =>
    obtain ⟨fuel, rfl⟩ := Nat.exists_eq_add_one_of_ne_zero (Nat.ne_zero_of_lt h)
    simp [readChars]
  | cons c cs ih =>
    obtain ⟨fuel, rfl⟩ := Nat.exists_eq_add_one_of_ne_zero (Nat.ne_zero_of_lt h)
    rw [List.flatMap_cons, List.append_assoc]
    exact readChars_charText c (ih fuel (by simpa using h))

/-- A character has a text. -/
theorem charText_ne_nil (c : Char) : charText c ≠ [] := by
  unfold charText
  split_ifs <;> exact List.cons_ne_nil _ _

/-- The text of a string is not shorter than the string. -/
theorem length_le_flatMap_charText (cs : List Char) : cs.length ≤ (cs.flatMap charText).length := by
  induction cs with
  | nil => simp
  | cons c cs ih =>
    have := List.length_pos_iff.mpr (charText_ne_nil c)
    simp only [List.flatMap_cons, List.length_append, List.length_cons]
    omega

end Json
end UpdateDispatch
