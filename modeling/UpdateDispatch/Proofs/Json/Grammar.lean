import UpdateDispatch.Proofs.Json.RoundTrip

/-!
# Texts that hold a value

The grammar of JSON as a relation: `Holds text v digits` says that a text writes the value `v`, and
that the longest whole number in it has so many digits. White space may stand around every part,
characters may be escaped in any way, numbers may have a fraction and an exponent. Of equal keys in
an object the last value counts.

The reader takes every such text. It gives the value, unless a whole number has more than
`maxDigits` digits (`read_of_holds`).
-/

namespace UpdateDispatch.Json

/-! ## The grammar -/

/-- White space. -/
def Blank (cs : List Char) : Prop := ∀ c ∈ cs, isSpace c = true

/-- Decimal digits, at least one. -/
def Digits (ds : List Char) : Prop := ds ≠ [] ∧ ∀ d ∈ ds, d.isDigit = true

/-- The digits of a whole number: a zero comes first only if it stands alone. -/
def WholeDigits (ds : List Char) : Prop := Digits ds ∧ (ds.head? = some '0' → ds = ['0'])

/-- The fraction of a number, which may be absent: its digits and its text. -/
inductive FractionText : List Char → List Char → Prop
  | absent : FractionText [] []
  | digits {fs : List Char} (h : Digits fs) : FractionText fs ('.' :: fs)

/-- The sign of an exponent, which may be absent: whether it is negative, and its text. -/
inductive SignText : Bool → List Char → Prop
  | absent : SignText false []
  | plus : SignText false ['+']
  | minus : SignText true ['-']

/-- The exponent of a number, which may be absent: its value and its text. -/
inductive ExponentText : Int → List Char → Prop
  | absent : ExponentText 0 []
  | digits {e : Char} {negative : Bool} {sign ds : List Char} (letter : e = 'e' ∨ e = 'E')
      (signed : SignText negative sign) (h : Digits ds) :
      ExponentText (if negative then -(digitsValue ds : Int) else digitsValue ds)
        (e :: (sign ++ ds))

/-- A number without its sign: its value, the count of its digits if it is a whole one, and its
text. -/
inductive UnsignedText (negative : Bool) : Json → Nat → List Char → Prop
  | whole {ds : List Char} (h : WholeDigits ds) :
      UnsignedText negative
        (.int (if negative then -(digitsValue ds : Int) else digitsValue ds)) ds.length ds
  | decimal {ds fs ft et : List Char} {e : Int} (h : WholeDigits ds) (fraction : FractionText fs ft)
      (exponent : ExponentText e et) (some : ft ++ et ≠ []) :
      UnsignedText negative
        (.float (Double.ofDecimal negative (digitsValue (ds ++ fs)) (e - fs.length))) 0
        (ds ++ (ft ++ et))

/-- Four hexadecimal digits, and the number that they write. -/
def HexFour (n : Nat) (hs : List Char) : Prop :=
  ∃ a b c d x y z w, hs = [a, b, c, d] ∧ hexDigit? a = some x ∧ hexDigit? b = some y ∧
    hexDigit? c = some z ∧ hexDigit? d = some w ∧ n = ((x * 16 + y) * 16 + z) * 16 + w

/-- A character as the text that follows a backslash. -/
inductive EscapeText : Char → List Char → Prop
  | quote : EscapeText '"' ['"']
  | backslash : EscapeText '\\' ['\\']
  | slash : EscapeText '/' ['/']
  | backspace : EscapeText '\x08' ['b']
  | formFeed : EscapeText '\x0c' ['f']
  | lineFeed : EscapeText '\n' ['n']
  | carriageReturn : EscapeText '\r' ['r']
  | tab : EscapeText '\t' ['t']
  | basic {n : Nat} {hs : List Char} (h : HexFour n hs) (basic : n < 0xD800 ∨ 0xE000 ≤ n) :
      EscapeText (Char.ofNat n) ('u' :: hs)
  | pair {high low : Nat} {hs ls : List Char} (first : HexFour high hs) (second : HexFour low ls)
      (hh : 0xD800 ≤ high ∧ high < 0xDC00) (hl : 0xDC00 ≤ low ∧ low < 0xE000) :
      EscapeText (Char.ofNat (joinSurrogates high low)) ('u' :: (hs ++ '\\' :: 'u' :: ls))

/-- A text that does not start with the second half of a pair of surrogates. -/
def Unpaired (ts : List Char) : Prop :=
  ∀ low ls more, HexFour low ls → 0xDC00 ≤ low ∧ low < 0xE000 → ts ≠ '\\' :: 'u' :: (ls ++ more)

/-- The characters of a string, and their text between the quotes. A surrogate that stands alone is
no character, and the replacement character stands for it. -/
inductive CharsText : List Char → List Char → Prop
  | nil : CharsText [] []
  | self {c : Char} {cs ts : List Char} (quote : c ≠ '"') (backslash : c ≠ '\\')
      (visible : 0x20 ≤ c.toNat) (rest : CharsText cs ts) : CharsText (c :: cs) (c :: ts)
  | escape {c : Char} {es cs ts : List Char} (h : EscapeText c es) (rest : CharsText cs ts) :
      CharsText (c :: cs) ('\\' :: (es ++ ts))
  | alone {n : Nat} {hs cs ts : List Char} (h : HexFour n hs) (surrogate : 0xD800 ≤ n ∧ n < 0xE000)
      (unpaired : n < 0xDC00 → Unpaired ts) (rest : CharsText cs ts) :
      CharsText ('\ufffd' :: cs) ('\\' :: 'u' :: (hs ++ ts))

/-- What a text can write: a value, the items of a list, or the fields of an object. -/
inductive Portion where
  | value (v : Json)
  | items (vs : List Json)
  | fields (fs : List (String × Json))

/-- A portion, the count of digits of its longest whole number, and its text. -/
inductive Written : Portion → Nat → List Char → Prop
  | null : Written (.value .null) 0 ['n', 'u', 'l', 'l']
  | yes : Written (.value (.bool true)) 0 ['t', 'r', 'u', 'e']
  | no : Written (.value (.bool false)) 0 ['f', 'a', 'l', 's', 'e']
  | number {v : Json} {n : Nat} {cs : List Char} (h : UnsignedText false v n cs) :
      Written (.value v) n cs
  | negative {v : Json} {n : Nat} {cs : List Char} (h : UnsignedText true v n cs) :
      Written (.value v) n ('-' :: cs)
  | string {cs ts : List Char} (h : CharsText cs ts) :
      Written (.value (.str (String.ofList cs))) 0 ('"' :: (ts ++ ['"']))
  | emptyList {blank : List Char} (h : Blank blank) :
      Written (.value (.arr [])) 0 ('[' :: (blank ++ [']']))
  | list {vs : List Json} {n : Nat} {cs : List Char} (h : Written (.items vs) n cs) :
      Written (.value (.arr vs)) n ('[' :: (cs ++ [']']))
  | emptyObject {blank : List Char} (h : Blank blank) :
      Written (.value (.obj [])) 0 ('\x7b' :: (blank ++ ['\x7d']))
  | object {fields : List (String × Json)} {n : Nat} {cs : List Char}
      (h : Written (.fields fields) n cs) :
      Written (.value (ofFields fields)) n ('\x7b' :: (cs ++ ['\x7d']))
  | item {v : Json} {n : Nat} {before cs after : List Char} (hb : Blank before) (ha : Blank after)
      (h : Written (.value v) n cs) : Written (.items [v]) n (before ++ (cs ++ after))
  | items {v : Json} {vs : List Json} {n m : Nat} {before cs after more : List Char}
      (hb : Blank before) (ha : Blank after) (h : Written (.value v) n cs)
      (rest : Written (.items vs) m more) :
      Written (.items (v :: vs)) (max n m) (before ++ (cs ++ (after ++ ',' :: more)))
  | field {key ts : List Char} {v : Json} {n : Nat} {b₁ b₂ b₃ cs b₄ : List Char}
      (h₁ : Blank b₁) (h₂ : Blank b₂) (h₃ : Blank b₃) (h₄ : Blank b₄) (name : CharsText key ts)
      (h : Written (.value v) n cs) :
      Written (.fields [(String.ofList key, v)]) n
        (b₁ ++ '"' :: (ts ++ '"' :: (b₂ ++ ':' :: (b₃ ++ (cs ++ b₄)))))
  | fields {key ts : List Char} {v : Json} {fields : List (String × Json)} {n m : Nat}
      {b₁ b₂ b₃ cs b₄ more : List Char} (h₁ : Blank b₁) (h₂ : Blank b₂) (h₃ : Blank b₃)
      (h₄ : Blank b₄) (name : CharsText key ts) (h : Written (.value v) n cs)
      (rest : Written (.fields fields) m more) :
      Written (.fields ((String.ofList key, v) :: fields)) (max n m)
        (b₁ ++ '"' :: (ts ++ '"' :: (b₂ ++ ':' :: (b₃ ++ (cs ++ (b₄ ++ ',' :: more))))))

/-- A text that writes a value, with white space around it. -/
def Holds (text : String) (v : Json) (digits : Nat) : Prop :=
  ∃ before cs after, Blank before ∧ Blank after ∧ Written (.value v) digits cs ∧
    text.toList = before ++ (cs ++ after)

/-! ## White space and ends -/

theorem skipSpace_of_blank {cs : List Char} (h : Blank cs) (rest : List Char) :
    skipSpace (cs ++ rest) = skipSpace rest :=
  List.dropWhile_append_of_pos h

/-- White space does not go on with a number. -/
theorem EndsNumber.blank {cs rest : List Char} (h : Blank cs) (ends : EndsNumber rest) :
    EndsNumber (cs ++ rest) := by
  cases cs with
  | nil => exact ends
  | cons c cs =>
    have space := h c List.mem_cons_self
    simp only [isSpace, Bool.or_eq_true, beq_iff_eq, or_assoc] at space
    rcases space with rfl | rfl | rfl | rfl <;> exact .cons _ (by decide)

/-- A text that no digit starts. -/
def EndsDigits (cs : List Char) : Prop := ∀ c ∈ cs.head?, c.isDigit = false

theorem EndsNumber.endsDigits {cs : List Char} (h : EndsNumber cs) : EndsDigits cs :=
  fun c hc => (h c hc).1

theorem EndsDigits.cons {c : Char} (cs : List Char) (h : c.isDigit = false) :
    EndsDigits (c :: cs) := by
  simpa [EndsDigits] using h

/-! ## Numbers that are too long -/

/-- What was read, unless a whole number in it is too long. -/
def within {α : Type} (digits : Nat) (a : α) : Except ReadError α :=
  if digits ≤ maxDigits then .ok a else .error .tooManyDigits

theorem within_eq {α : Type} (digits : Nat) (a : α) :
    within digits a = if maxDigits < digits then .error .tooManyDigits else .ok a := by
  unfold within
  split_ifs with h h' h'
  · omega
  · rfl
  · rfl
  · omega

theorem within_zero {α : Type} (a : α) : within 0 a = .ok a := rfl

/-- Two readings in a row, of which the first one fails first. -/
theorem within_bind {α β : Type} (n m : Nat) (a : α) (b : β) (f : α → Except ReadError β)
    (h : f a = within m b) : within n a >>= f = within (max n m) b := by
  unfold within at *
  by_cases hn : n ≤ maxDigits
  · simp [hn, h, bind, Except.bind]
  · simp [hn, bind, Except.bind]

theorem within_map {α β : Type} (n : Nat) (a : α) (f : α → β) :
    (within n a >>= fun a => .ok (f a)) = within n (f a) := by
  unfold within
  split_ifs <;> rfl

/-! ## Numbers -/

variable {ds fs ft et rest : List Char}

theorem span_digits (h : ∀ d ∈ ds, d.isDigit = true) (ends : EndsDigits rest) :
    (ds ++ rest).span Char.isDigit = (ds, rest) := by
  rw [List.span_eq_takeWhile_dropWhile, List.takeWhile_append_of_pos h,
    List.dropWhile_append_of_pos h]
  cases rest with
  | nil => simp
  | cons c cs =>
    have : c.isDigit = false := ends c rfl
    simp [this]

theorem FractionText.read (h : FractionText fs ft) (ends : EndsDigits rest)
    (noPoint : ∀ c ∈ rest.head?, c ≠ '.') :
    readFraction (ft ++ rest) = if ft = [] then none else some (fs, rest) := by
  cases h with
  | absent =>
    cases rest with
    | nil => rfl
    | cons c cs =>
      have : c ≠ '.' := noPoint c rfl
      simp [readFraction, this]
  | digits h =>
    simp [readFraction, span_digits h.2 ends, h.1, -List.span_eq_takeWhile_dropWhile]

theorem ExponentText.read {e : Int} (h : ExponentText e et) (ends : EndsNumber rest) :
    readExponent (et ++ rest) = if et = [] then none else some (e, rest) := by
  cases h with
  | absent => exact readExponent_of_ends ends
  | @digits letter negative sign ds hl signed h =>
    obtain ⟨some, digits⟩ := h
    obtain ⟨d, ds, rfl⟩ := List.exists_cons_of_ne_nil some
    have first := digits d List.mem_cons_self
    have span := span_digits digits ends.endsDigits
    rw [List.cons_append] at span
    have minus : d ≠ '-' := by
      rintro rfl
      simp at first
    have plus : d ≠ '+' := by
      rintro rfl
      simp at first
    cases signed with
    | absent => simp [readExponent, hl, minus, plus, span, -List.span_eq_takeWhile_dropWhile]
    | plus => simp [readExponent, hl, span, -List.span_eq_takeWhile_dropWhile]
    | minus => simp [readExponent, hl, span, -List.span_eq_takeWhile_dropWhile]

theorem ExponentText.head_cases {e : Int} (h : ExponentText e et) :
    et = [] ∨ ∃ c cs, et = c :: cs ∧ (c = 'e' ∨ c = 'E') := by
  cases h with
  | absent => exact .inl rfl
  | digits letter => exact .inr ⟨_, _, rfl, letter⟩

/-- Neither a digit nor a point comes where an exponent may come. -/
theorem ExponentText.ends {e : Int} (h : ExponentText e et) (ends : EndsNumber rest) :
    EndsDigits (et ++ rest) ∧ ∀ c ∈ (et ++ rest).head?, c ≠ '.' := by
  obtain rfl | ⟨c, cs, rfl, rfl | rfl⟩ := h.head_cases
  · exact ⟨ends.endsDigits, fun c hc => (ends c hc).2.1⟩
  · exact ⟨.cons _ (by decide), by simp⟩
  · exact ⟨.cons _ (by decide), by simp⟩

theorem FractionText.ends (h : FractionText fs ft) (ends : EndsDigits rest) :
    EndsDigits (ft ++ rest) := by
  cases h with
  | absent => exact ends
  | digits => exact .cons _ (by decide)

/-- The digits at the start of a number are taken off. -/
theorem readUnsigned_whole (negative : Bool) (h : WholeDigits ds) (ends : EndsDigits rest) :
    readUnsigned negative (ds ++ rest) =
      let fraction := readFraction rest
      let left := fraction.getD ([], rest)
      let exponent := readExponent left.2
      let last := exponent.getD (0, left.2)
      if fraction.isSome || exponent.isSome then
        .ok (.float (Double.ofDecimal negative (digitsValue (ds ++ left.1))
          (last.1 - left.1.length)), last.2)
      else within ds.length
        (.int (if negative then -(digitsValue ds : Int) else digitsValue ds), last.2) := by
  obtain ⟨⟨some, digits⟩, alone⟩ := h
  have span := span_digits digits ends
  obtain ⟨d, ds, rfl⟩ := List.exists_cons_of_ne_nil some
  rw [List.cons_append] at span
  by_cases zero : d = '0'
  · obtain rfl : ds = [] := by simpa [zero] using alone
    subst zero
    simp only [readUnsigned, List.cons_append, List.nil_append, within_eq]
  · simp [readUnsigned, zero, span, within_eq, -List.span_eq_takeWhile_dropWhile,
      -List.length_cons]

variable {v : Json} {n : Nat} {cs : List Char}

theorem UnsignedText.read {negative : Bool} (h : UnsignedText negative v n cs)
    (ends : EndsNumber rest) : readUnsigned negative (cs ++ rest) = within n (v, rest) := by
  cases h with
  | whole h =>
    simp [readUnsigned_whole negative h ends.endsDigits, readFraction_of_ends ends,
      readExponent_of_ends ends]
  | @decimal ds fs ft et e h fraction exponent some =>
    have after := exponent.ends ends
    have front := fraction.read after.1 after.2
    have back := exponent.read ends
    rw [List.append_assoc, List.append_assoc, readUnsigned_whole negative h (fraction.ends after.1)]
    -- what is absent is read as nothing, and not both of them are
    cases fraction with
    | absent =>
      rw [List.nil_append] at front some ⊢
      rw [if_pos rfl] at front
      rw [if_neg some] at back
      simp [front, back, within_zero]
    | digits =>
      rw [if_neg (List.cons_ne_nil _ _)] at front
      cases exponent with
      | absent =>
        rw [List.nil_append] at front back ⊢
        rw [if_pos rfl] at back
        simp only [front, back, Option.isSome_some, Option.getD_some, Option.getD_none,
          Bool.true_or, if_true, within_zero]
      | digits =>
        rw [if_neg (List.cons_ne_nil _ _)] at back
        simp only [front, back, Option.isSome_some, Option.getD_some, Bool.true_or, if_true,
          within_zero]

/-! ## Strings -/

theorem HexFour.read {hs : List Char} (h : HexFour n hs) :
    hexFour? (hs ++ rest) = some (n, rest) := by
  obtain ⟨a, b, c, d, x, y, z, w, rfl, ha, hb, hc, hd, rfl⟩ := h
  simp [hexFour?, ha, hb, hc, hd]

theorem EscapeText.read {c : Char} {es : List Char} (h : EscapeText c es) :
    escape? (es ++ rest) = some (c, rest) := by
  cases h with
  | @basic n hs h basic =>
    have high : ¬(0xD800 ≤ n ∧ n < 0xDC00) := by omega
    have low : ¬(0xDC00 ≤ n ∧ n < 0xE000) := by omega
    simp [escape?, numberEscape?, h.read, high, low]
  | pair first second hh hl =>
    simp [escape?, numberEscape?, first.read, second.read, hh, hl]
  | _ => rfl

variable {ts : List Char}

/-- After a surrogate that stands alone, either no escape by number follows, or one that is no
second half. -/
theorem CharsText.unpaired_cases (h : CharsText cs ts) (alone : Unpaired ts) (rest : List Char) :
    (∀ more, ts ++ '"' :: rest ≠ '\\' :: 'u' :: more) ∨
      ∃ more m after, ts ++ '"' :: rest = '\\' :: 'u' :: more ∧ hexFour? more = some (m, after) ∧
        ¬(0xDC00 ≤ m ∧ m < 0xE000) := by
  cases h with
  | nil => exact .inl (by simp)
  | self _ backslash => exact .inl (by simp [backslash])
  | @escape _ _ _ ts h =>
    cases h with
    | @basic n hs h basic =>
      exact .inr ⟨hs ++ (ts ++ '"' :: rest), n, _, by simp, h.read, by omega⟩
    | @pair high low hs ls first _ hh =>
      exact .inr ⟨hs ++ '\\' :: 'u' :: (ls ++ (ts ++ '"' :: rest)), high, _, by simp, first.read,
        by omega⟩
    | _ => exact .inl (by simp)
  | @alone n hs _ ts h =>
    exact .inr ⟨hs ++ (ts ++ '"' :: rest), n, _, by simp, h.read, fun low =>
      alone n hs ts h low rfl⟩

/-- A surrogate that stands alone is read as the replacement character. -/
theorem numberEscape?_of_alone {hs : List Char} (h : HexFour n hs)
    (surrogate : 0xD800 ≤ n ∧ n < 0xE000) (unpaired : n < 0xDC00 → Unpaired ts)
    (chars : CharsText cs ts) (rest : List Char) :
    numberEscape? (hs ++ (ts ++ '"' :: rest)) = some ('\ufffd', ts ++ '"' :: rest) := by
  by_cases high : n < 0xDC00
  · have first : 0xD800 ≤ n ∧ n < 0xDC00 := ⟨surrogate.1, high⟩
    obtain other | ⟨more, m, after, same, read, notLow⟩ :=
      chars.unpaired_cases (unpaired high) rest
    · simp [numberEscape?, h.read, first]
    · simp [numberEscape?, h.read, first, same, read, notLow]
  · have first : ¬(0xD800 ≤ n ∧ n < 0xDC00) := by omega
    have second : 0xDC00 ≤ n ∧ n < 0xE000 := by omega
    simp [numberEscape?, h.read, first, second]

theorem CharsText.read (h : CharsText cs ts) {fuel : Nat}
    (hf : ts.length < fuel) : readChars fuel (ts ++ '"' :: rest) = .ok (cs, rest) := by
  induction h generalizing fuel with
  | nil =>
    obtain ⟨fuel, rfl⟩ := Nat.exists_eq_add_one_of_ne_zero (Nat.ne_zero_of_lt hf)
    simp [readChars]
  | self quote backslash visible _ ih =>
    obtain ⟨fuel, rfl⟩ := Nat.exists_eq_add_one_of_ne_zero (Nat.ne_zero_of_lt hf)
    exact readChars_self quote backslash visible (ih (by simpa using hf))
  | escape h _ ih =>
    obtain ⟨fuel, rfl⟩ := Nat.exists_eq_add_one_of_ne_zero (Nat.ne_zero_of_lt hf)
    simp only [List.length_cons, List.length_append] at hf
    rw [List.cons_append, List.append_assoc]
    exact readChars_escape h.read (ih (by omega))
  | alone h surrogate unpaired chars ih =>
    obtain ⟨fuel, rfl⟩ := Nat.exists_eq_add_one_of_ne_zero (Nat.ne_zero_of_lt hf)
    simp only [List.length_cons, List.length_append] at hf
    rw [List.cons_append, List.cons_append, List.append_assoc]
    exact readChars_escape (numberEscape?_of_alone h surrogate unpaired chars rest) (ih (by omega))

/-! ## Values -/

/-- How a portion is read from its text, whatever follows it: a value anywhere where a number ends,
the items of a list and the fields of an object up to its end. -/
def Portion.ReadFrom (n : Nat) (cs : List Char) : Portion → Prop
  | .value v => StartsPart cs ∧ ∀ fuel rest, cs.length < fuel → EndsNumber rest →
      readValue fuel (cs ++ rest) = within n (v, rest)
  | .items vs => ∃ blank body, Blank blank ∧ cs = blank ++ body ∧ StartsPart body ∧
      ∀ fuel rest, body.length + 1 < fuel →
        readItems fuel (body ++ ']' :: rest) = within n (vs, rest)
  | .fields fs => ∃ blank body, Blank blank ∧ cs = blank ++ body ∧ StartsPart body ∧
      ∀ fuel rest, body.length + 1 < fuel →
        readFields fuel (body ++ '\x7d' :: rest) = within n (fs, rest)

/-- A number starts with a digit, its sign apart. -/
theorem UnsignedText.exists_cons {negative : Bool} (h : UnsignedText negative v n cs) :
    ∃ d ds, cs = d :: ds ∧ d.isDigit = true := by
  obtain ⟨ds, more, rfl, some, digits⟩ : ∃ ds more, cs = ds ++ more ∧ Digits ds := by
    cases h with
    | whole h => exact ⟨_, [], (List.append_nil _).symm, h.1⟩
    | decimal h => exact ⟨_, _, rfl, h.1⟩
  obtain ⟨d, ds, rfl⟩ := List.exists_cons_of_ne_nil some
  exact ⟨d, ds ++ more, rfl, digits d List.mem_cons_self⟩

/-- A value is read from its text if it is read from what starts with its first character. -/
theorem readFrom_value {c : Char} (hc : isSpace c = false ∧ c ≠ ']' ∧ c ≠ '\x7d')
    (read : ∀ fuel rest, cs.length < fuel → EndsNumber rest →
      readValue (fuel + 1) (c :: (cs ++ rest)) = within n (v, rest)) :
    (Portion.value v).ReadFrom n (c :: cs) := by
  refine ⟨.cons cs hc, fun fuel rest hf ends => ?_⟩
  obtain ⟨fuel, rfl⟩ := Nat.exists_eq_add_one_of_ne_zero (Nat.ne_zero_of_lt hf)
  rw [List.cons_append]
  exact read fuel rest (by simpa using hf) ends

theorem readFrom_number (h : UnsignedText false v n cs) : (Portion.value v).ReadFrom n cs := by
  obtain ⟨d, ds, rfl, digit⟩ := h.exists_cons
  obtain ⟨space, list, object, start⟩ := isSpace_of_number (.inr digit)
  refine readFrom_value ⟨space, list, object⟩ fun fuel rest _ ends => ?_
  have read := h.read ends
  rw [List.cons_append] at read
  rw [readValue_scalar fuel start, readScalar_of_number _ (.inr digit), readNumber_of_digit _ digit,
    read]

theorem readFrom_negative (h : UnsignedText true v n cs) :
    (Portion.value v).ReadFrom n ('-' :: cs) := by
  obtain ⟨d, ds, rfl, digit⟩ := h.exists_cons
  obtain ⟨space, list, object, start⟩ := isSpace_of_number (.inl rfl)
  refine readFrom_value ⟨space, list, object⟩ fun fuel rest _ ends => ?_
  have read := h.read ends
  rw [List.cons_append] at read
  rw [List.cons_append, readValue_scalar fuel start, readScalar_of_number _ (.inl rfl),
    readNumber_of_minus _ digit, read]

theorem readFrom_null : (Portion.value .null).ReadFrom 0 ['n', 'u', 'l', 'l'] :=
  readFrom_value (by decide) fun fuel rest _ _ => by
    simp [readValue_null, within_zero]

theorem readFrom_true : (Portion.value (.bool true)).ReadFrom 0 ['t', 'r', 'u', 'e'] :=
  readFrom_value (by decide) fun fuel rest _ _ => by
    simp [readValue_true, within_zero]

theorem readFrom_false : (Portion.value (.bool false)).ReadFrom 0 ['f', 'a', 'l', 's', 'e'] :=
  readFrom_value (by decide) fun fuel rest _ _ => by
    simp [readValue_false, within_zero]

theorem readFrom_string (h : CharsText cs ts) :
    (Portion.value (.str (String.ofList cs))).ReadFrom 0 ('"' :: (ts ++ ['"'])) := by
  refine readFrom_value (by decide) fun fuel rest hf _ => ?_
  simp only [List.length_append] at hf
  have chars : readChars fuel (ts ++ '"' :: rest) = .ok (cs, rest) := h.read (by omega)
  simp [readValue_quote, chars, within_zero, bind, Except.bind]

/-! ### Lists -/

variable {fuel : Nat} {more : List Char} {vs : List Json}

theorem readFrom_emptyList {blank : List Char} (h : Blank blank) :
    (Portion.value (.arr [])).ReadFrom 0 ('[' :: (blank ++ [']'])) := by
  refine readFrom_value (by decide) fun fuel rest _ _ => ?_
  simp [readValue, skipSpace_of_blank h, skipSpace_mark, within_zero]

theorem readFrom_list (h : (Portion.items vs).ReadFrom n cs) :
    (Portion.value (.arr vs)).ReadFrom n ('[' :: (cs ++ [']'])) := by
  obtain ⟨blank, body, hb, rfl, starts, read⟩ := h
  refine readFrom_value (by decide) fun fuel rest hf _ => ?_
  simp only [List.length_cons, List.length_append, List.length_nil] at hf
  have start : skipSpace (blank ++ (body ++ ']' :: rest)) = body ++ ']' :: rest := by
    rw [skipSpace_of_blank hb, skipSpace_of_starts (starts.append _)]
  have value := readValue_list fuel start (starts.append _)
  rw [read fuel rest (by omega), within_map] at value
  simpa using value

variable {before after : List Char}

theorem readFrom_item (hb : Blank before) (ha : Blank after) (h : (Portion.value v).ReadFrom n cs) :
    (Portion.items [v]).ReadFrom n (before ++ (cs ++ after)) := by
  obtain ⟨starts, read⟩ := h
  refine ⟨before, cs ++ after, hb, rfl, starts.append _, fun fuel rest hf => ?_⟩
  obtain ⟨fuel, rfl⟩ := Nat.exists_eq_add_one_of_ne_zero (Nat.ne_zero_of_lt hf)
  rw [List.length_append] at hf
  have first := read fuel (after ++ ']' :: rest) (by omega)
    (.blank ha (.cons rest (by decide)))
  rw [List.append_assoc, readItems, first]
  refine (within_bind n 0 _ ([v], rest) _ ?_).trans (by rw [Nat.max_zero])
  simp [skipSpace_of_blank ha, skipSpace_mark, within_zero]

theorem readFrom_items {m : Nat} (hb : Blank before) (ha : Blank after)
    (h : (Portion.value v).ReadFrom n cs) (others : (Portion.items vs).ReadFrom m more) :
    (Portion.items (v :: vs)).ReadFrom (max n m) (before ++ (cs ++ (after ++ ',' :: more))) := by
  obtain ⟨starts, read⟩ := h
  obtain ⟨blank, body, hbl, rfl, next, readNext⟩ := others
  refine ⟨before, _, hb, rfl, starts.append _, fun fuel rest hf => ?_⟩
  obtain ⟨fuel, rfl⟩ := Nat.exists_eq_add_one_of_ne_zero (Nat.ne_zero_of_lt hf)
  simp only [List.length_append, List.length_cons] at hf
  have first := read fuel (after ++ (',' :: (blank ++ body) ++ ']' :: rest)) (by omega)
    (.blank ha (.cons _ (by decide)))
  rw [List.append_assoc, List.append_assoc, readItems, first]
  -- of the faults of the item and of the others that of the item comes first
  refine within_bind n m _ (v :: vs, rest) _ ?_
  have skip : skipSpace (blank ++ (body ++ ']' :: rest)) = body ++ ']' :: rest := by
    rw [skipSpace_of_blank hbl, skipSpace_of_starts (next.append _)]
  simp only [skipSpace_of_blank ha, List.cons_append, List.append_assoc,
    skipSpace_mark (show ',' ∈ _ by decide), skip, readNext fuel rest (by omega)]
  exact within_map m (vs, rest) fun found => (v :: found.1, found.2)

/-! ### Objects -/

variable {key : List Char} {fields : List (String × Json)}

theorem readFrom_emptyObject {blank : List Char} (h : Blank blank) :
    (Portion.value (.obj [])).ReadFrom 0 ('\x7b' :: (blank ++ ['\x7d'])) := by
  refine readFrom_value (by decide) fun fuel rest _ _ => ?_
  simp [readValue, skipSpace_of_blank h, skipSpace_mark, within_zero]

theorem readFrom_object (h : (Portion.fields fields).ReadFrom n cs) :
    (Portion.value (ofFields fields)).ReadFrom n ('\x7b' :: (cs ++ ['\x7d'])) := by
  obtain ⟨blank, body, hb, rfl, starts, read⟩ := h
  refine readFrom_value (by decide) fun fuel rest hf _ => ?_
  simp only [List.length_cons, List.length_append, List.length_nil] at hf
  have start : skipSpace (blank ++ (body ++ '\x7d' :: rest)) = body ++ '\x7d' :: rest := by
    rw [skipSpace_of_blank hb, skipSpace_of_starts (starts.append _)]
  have value := readValue_object fuel start (starts.append _)
  rw [read fuel rest (by omega), within_map] at value
  simpa using value

/-- A field is read, and after it the end of the object or a comma and the other fields. -/
theorem readFields_field {m : Nat} {b₂ b₃ after last : List Char} (h₂ : Blank b₂) (h₃ : Blank b₃)
    (name : CharsText key ts) (hf : ts.length < fuel) (starts : StartsPart cs)
    (value : readValue fuel (cs ++ rest) = within n (v, after))
    (next : (skipSpace after = '\x7d' :: last ∧ fields = [] ∧ m = 0) ∨
      ∃ more, skipSpace after = ',' :: more ∧
        readFields fuel (skipSpace more) = within m (fields, last)) :
    readFields (fuel + 1) ('"' :: (ts ++ '"' :: (b₂ ++ ':' :: (b₃ ++ (cs ++ rest))))) =
      within (max n m) ((String.ofList key, v) :: fields, last) := by
  have chars : readChars fuel (ts ++ '"' :: (b₂ ++ ':' :: (b₃ ++ (cs ++ rest)))) =
      within 0 (key, b₂ ++ ':' :: (b₃ ++ (cs ++ rest))) := name.read hf
  have colon : skipSpace (b₂ ++ ':' :: (b₃ ++ (cs ++ rest))) = ':' :: (b₃ ++ (cs ++ rest)) := by
    rw [skipSpace_of_blank h₂, skipSpace_mark (by decide)]
  have start : skipSpace (b₃ ++ (cs ++ rest)) = cs ++ rest := by
    rw [skipSpace_of_blank h₃, skipSpace_of_starts (starts.append _)]
  simp only [readFields, chars]
  refine (within_bind 0 (max n m) _ ((String.ofList key, v) :: fields, last) _ ?_).trans
    (by rw [Nat.zero_max])
  simp only [colon, start, value]
  refine within_bind n m _ ((String.ofList key, v) :: fields, last) _ ?_
  obtain ⟨stop, rfl, rfl⟩ | ⟨more, comma, others⟩ := next
  · simp only [stop, within_zero]
  · simp only [comma, others]
    exact within_map m (fields, last) fun found => ((String.ofList key, v) :: found.1, found.2)

variable {b₁ b₂ b₃ b₄ : List Char}

theorem readFrom_field (h₁ : Blank b₁) (h₂ : Blank b₂) (h₃ : Blank b₃) (h₄ : Blank b₄)
    (name : CharsText key ts) (h : (Portion.value v).ReadFrom n cs) :
    (Portion.fields [(String.ofList key, v)]).ReadFrom n
      (b₁ ++ '"' :: (ts ++ '"' :: (b₂ ++ ':' :: (b₃ ++ (cs ++ b₄))))) := by
  obtain ⟨starts, read⟩ := h
  refine ⟨b₁, _, h₁, rfl, .cons _ (by decide), fun fuel rest hf => ?_⟩
  obtain ⟨fuel, rfl⟩ := Nat.exists_eq_add_one_of_ne_zero (Nat.ne_zero_of_lt hf)
  simp only [List.length_append, List.length_cons] at hf
  have first := read fuel (b₄ ++ '\x7d' :: rest) (by omega) (.blank h₄ (.cons rest (by decide)))
  have stop : skipSpace (b₄ ++ '\x7d' :: rest) = '\x7d' :: rest := by
    rw [skipSpace_of_blank h₄, skipSpace_mark (by decide)]
  simpa using readFields_field h₂ h₃ name (by omega) starts first (.inl ⟨stop, rfl, rfl⟩)

theorem readFrom_fields {m : Nat} (h₁ : Blank b₁) (h₂ : Blank b₂) (h₃ : Blank b₃) (h₄ : Blank b₄)
    (name : CharsText key ts) (h : (Portion.value v).ReadFrom n cs)
    (others : (Portion.fields fields).ReadFrom m more) :
    (Portion.fields ((String.ofList key, v) :: fields)).ReadFrom (max n m)
      (b₁ ++ '"' :: (ts ++ '"' :: (b₂ ++ ':' :: (b₃ ++ (cs ++ (b₄ ++ ',' :: more)))))) := by
  obtain ⟨starts, read⟩ := h
  obtain ⟨blank, body, hb, rfl, next, readNext⟩ := others
  refine ⟨b₁, _, h₁, rfl, .cons _ (by decide), fun fuel rest hf => ?_⟩
  obtain ⟨fuel, rfl⟩ := Nat.exists_eq_add_one_of_ne_zero (Nat.ne_zero_of_lt hf)
  simp only [List.length_append, List.length_cons] at hf
  have first := read fuel (b₄ ++ ',' :: (blank ++ (body ++ '\x7d' :: rest))) (by omega)
    (.blank h₄ (.cons _ (by decide)))
  have comma : skipSpace (b₄ ++ ',' :: (blank ++ (body ++ '\x7d' :: rest))) =
      ',' :: (blank ++ (body ++ '\x7d' :: rest)) := by
    rw [skipSpace_of_blank h₄, skipSpace_mark (by decide)]
  have skip : skipSpace (blank ++ (body ++ '\x7d' :: rest)) = body ++ '\x7d' :: rest := by
    rw [skipSpace_of_blank hb, skipSpace_of_starts (next.append _)]
  simpa using readFields_field h₂ h₃ name (by omega) starts first
    (.inr ⟨_, comma, by rw [skip, readNext fuel rest (by omega)]⟩)

/-! ### The whole text -/

/-- What the grammar takes is read, portion by portion. -/
theorem Written.readFrom {p : Portion} (h : Written p n cs) : p.ReadFrom n cs := by
  -- one lemma for each rule of the grammar
  induction h with
  | null => exact readFrom_null
  | yes => exact readFrom_true
  | no => exact readFrom_false
  | number h => exact readFrom_number h
  | negative h => exact readFrom_negative h
  | string h => exact readFrom_string h
  | emptyList h => exact readFrom_emptyList h
  | list _ ih => exact readFrom_list ih
  | emptyObject h => exact readFrom_emptyObject h
  | object _ ih => exact readFrom_object ih
  | item hb ha _ ih => exact readFrom_item hb ha ih
  | items hb ha _ _ ih others => exact readFrom_items hb ha ih others
  | field h₁ h₂ h₃ h₄ name _ ih => exact readFrom_field h₁ h₂ h₃ h₄ name ih
  | fields h₁ h₂ h₃ h₄ name _ _ ih others => exact readFrom_fields h₁ h₂ h₃ h₄ name ih others

/-- Every text that writes a value is read as it, unless a whole number in it is too long. -/
theorem read_of_holds {text : String} (h : Holds text v n) : read text = within n v := by
  obtain ⟨before, cs, after, hb, ha, written, shape⟩ := h
  obtain ⟨starts, reads⟩ := written.readFrom
  have start : skipSpace (before ++ (cs ++ after)) = cs ++ after := by
    rw [skipSpace_of_blank hb, skipSpace_of_starts (starts.append _)]
  have stop : skipSpace after = [] := by
    have := skipSpace_of_blank ha []
    rwa [List.append_nil] at this
  have ends : EndsNumber after := by
    simpa using EndsNumber.nil.blank ha
  have value := reads ((before ++ (cs ++ after)).length + 1) after (by simp; omega) ends
  simp only [read, shape, start, value]
  refine (within_bind n 0 _ v _ ?_).trans (by rw [Nat.max_zero])
  simp [stop, within_zero]

/-! ## Some texts -/

/-- Characters that need no escape stand for themselves. -/
theorem CharsText.refl (h : ∀ c ∈ cs, c ≠ '"' ∧ c ≠ '\\' ∧ 0x20 ≤ c.toNat) : CharsText cs cs := by
  induction cs with
  | nil => exact .nil
  | cons c cs ih =>
    obtain ⟨⟨quote, backslash, visible⟩, others⟩ := List.forall_mem_cons.mp h
    exact .self quote backslash visible (ih others)

/-- Digits alone write a whole number. -/
theorem holds_of_digits (h : WholeDigits ds) :
    Holds (String.ofList ds) (.int (digitsValue ds)) ds.length :=
  ⟨[], ds, [], List.forall_mem_nil _, List.forall_mem_nil _, .number (.whole h), by simp⟩

theorem wholeDigits_ones (h : n ≠ 0) : WholeDigits (List.replicate n '1') :=
  ⟨⟨by simpa using h, fun d hd => by rw [List.eq_of_mem_replicate hd]; decide⟩,
    by simp [List.head?_replicate]⟩

end UpdateDispatch.Json
