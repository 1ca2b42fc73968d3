import UpdateDispatch.Json.Basic

/-!
# Reading JSON

`Json.read` reads one value from a text. Beyond the standard grammar it takes `NaN`, `Infinity`
and `-Infinity`; a number with a fraction or an exponent is a double, any other a whole number. Of
equal keys in an object the last value counts. A byte-order mark is no white space, and control
characters inside a string are refused.

Each reader takes the text that is left and returns what it read with the rest. The recursion is
bounded by a number that the length of the text makes large enough.
-/

namespace UpdateDispatch.Json

/-- Why a text is not read. -/
inductive ReadError where
  | malformed
  | tooManyDigits
  deriving DecidableEq, Repr

/-- The longest whole number that is read, in digits. -/
def maxDigits : Nat := 4300

/-- White space between the parts of a value. -/
def isSpace (c : Char) : Bool := c == ' ' || c == '\t' || c == '\n' || c == '\r'

/-- The text after the white space at its start. -/
def skipSpace : List Char → List Char := List.dropWhile isSpace

/-- The text after a word at its start. -/
def afterWord? : List Char → List Char → Option (List Char)
  | [], cs => some cs
  | w :: ws, c :: cs => if w = c then afterWord? ws cs else none
  | _ :: _, [] => none

/-- The value of a hexadecimal digit. -/
def hexDigit? (c : Char) : Option Nat :=
  if '0' ≤ c ∧ c ≤ '9' then some (c.toNat - '0'.toNat)
  else if 'a' ≤ c ∧ c ≤ 'f' then some (c.toNat - 'a'.toNat + 10)
  else if 'A' ≤ c ∧ c ≤ 'F' then some (c.toNat - 'A'.toNat + 10)
  else none

/-- The number that four hexadecimal digits write, and the rest. -/
def hexFour? : List Char → Option (Nat × List Char)
  | a :: b :: c :: d :: rest => do
    let a ← hexDigit? a
    let b ← hexDigit? b
    let c ← hexDigit? c
    let d ← hexDigit? d
    some (((a * 16 + b) * 16 + c) * 16 + d, rest)
  | _ => none

/-- The code point of a pair of surrogates. -/
def joinSurrogates (high low : Nat) : Nat := 0x10000 + (high - 0xD800) * 0x400 + (low - 0xDC00)

/-- The character of an escape by number, after its `u`; two surrogates in a row are one character,
and a surrogate that stands alone is read as the replacement character. -/
def numberEscape? (cs : List Char) : Option (Char × List Char) := do
  let (n, rest) ← hexFour? cs
  if 0xD800 ≤ n ∧ n < 0xDC00 then
    match rest with
    | '\\' :: 'u' :: more =>
      let (m, rest') ← hexFour? more
      if 0xDC00 ≤ m ∧ m < 0xE000 then some (Char.ofNat (joinSurrogates n m), rest')
      else some ('\ufffd', rest)
    | _ => some ('\ufffd', rest)
  else if 0xDC00 ≤ n ∧ n < 0xE000 then some ('\ufffd', rest)
  else some (Char.ofNat n, rest)

/-- The character of an escape, after its backslash. -/
def escape? : List Char → Option (Char × List Char)
  | '"' :: rest => some ('"', rest)
  | '\\' :: rest => some ('\\', rest)
  | '/' :: rest => some ('/', rest)
  | 'b' :: rest => some ('\x08', rest)
  | 'f' :: rest => some ('\x0c', rest)
  | 'n' :: rest => some ('\n', rest)
  | 'r' :: rest => some ('\r', rest)
  | 't' :: rest => some ('\t', rest)
  | 'u' :: rest => numberEscape? rest
  | _ => none

/-- The characters of a string, after its opening quote. -/
def readChars : Nat → List Char → Except ReadError (List Char × List Char)
  | 0, _ => .error .malformed
  | _ + 1, [] => .error .malformed
  | fuel + 1, c :: rest =>
    if c = '"' then .ok ([], rest)
    else if c = '\\' then
      match escape? rest with
      | none => .error .malformed
      | some (d, rest) => do
        let (ds, rest) ← readChars fuel rest
        .ok (d :: ds, rest)
    else if c.toNat < 0x20 then .error .malformed
    else do
      let (ds, rest) ← readChars fuel rest
      .ok (c :: ds, rest)

/-- The number that a list of decimal digits writes. -/
def digitsValue (ds : List Char) : Nat :=
  ds.foldl (fun n d => n * 10 + (d.toNat - '0'.toNat)) 0

/-- The exponent part of a number, if one follows. -/
def readExponent (cs : List Char) : Option (Int × List Char) :=
  match cs with
  | e :: rest =>
    if e = 'e' ∨ e = 'E' then
      let (negative, rest) := match rest with
        | '-' :: more => (true, more)
        | '+' :: more => (false, more)
        | _ => (false, rest)
      let (ds, rest) := rest.span Char.isDigit
      if ds.isEmpty then none
      else
        let n : Int := digitsValue ds
        some (if negative then -n else n, rest)
    else none
  | [] => none

/-- The digits after a decimal point, if a fraction follows. -/
def readFraction (cs : List Char) : Option (List Char × List Char) :=
  match cs with
  | '.' :: rest =>
    let (ds, rest) := rest.span Char.isDigit
    if ds.isEmpty then none else some (ds, rest)
  | _ => none

/-- A number without its sign. -/
def readUnsigned (negative : Bool) (cs : List Char) : Except ReadError (Json × List Char) :=
  let whole := match cs with
    | '0' :: rest => some (['0'], rest)
    | _ =>
      let (ds, rest) := cs.span Char.isDigit
      if ds.isEmpty then none else some (ds, rest)
  match whole with
  | none => .error .malformed
  | some (ds, rest) =>
    let fraction := readFraction rest
    let (fs, rest) := fraction.getD ([], rest)
    let exponent := readExponent rest
    let (e, rest) := exponent.getD (0, rest)
    if fraction.isSome || exponent.isSome then
      .ok (.float (Double.ofDecimal negative (digitsValue (ds ++ fs)) (e - fs.length)), rest)
    else if maxDigits < ds.length then .error .tooManyDigits
    else
      let n : Int := digitsValue ds
      .ok (.int (if negative then -n else n), rest)

/-- A number. -/
def readNumber (cs : List Char) : Except ReadError (Json × List Char) :=
  match cs with
  | '-' :: rest =>
    match afterWord? "Infinity".toList rest with
    | some rest => .ok (.float (.infinite true), rest)
    | none => readUnsigned true rest
  | _ => readUnsigned false cs

/-- A constant or a number. -/
def readScalar (cs : List Char) : Except ReadError (Json × List Char) :=
  match afterWord? "null".toList cs with
  | some rest => .ok (.null, rest)
  | none =>
  match afterWord? "true".toList cs with
  | some rest => .ok (.bool true, rest)
  | none =>
  match afterWord? "false".toList cs with
  | some rest => .ok (.bool false, rest)
  | none =>
  match afterWord? "NaN".toList cs with
  | some rest => .ok (.float .undefined, rest)
  | none =>
  match afterWord? "Infinity".toList cs with
  | some rest => .ok (.float (.infinite false), rest)
  | none => readNumber cs

mutual

/-- A value, at the start of the text. -/
def readValue : Nat → List Char → Except ReadError (Json × List Char)
  | 0, _ => .error .malformed
  | fuel + 1, cs =>
    match cs with
    | '"' :: rest => do
      let (s, rest) ← readChars fuel rest
      .ok (.str (String.ofList s), rest)
    | '[' :: rest =>
      match skipSpace rest with
      | ']' :: rest => .ok (.arr [], rest)
      | rest => do
        let (items, rest) ← readItems fuel rest
        .ok (.arr items, rest)
    | '\x7b' :: rest =>
      match skipSpace rest with
      | '\x7d' :: rest => .ok (.obj [], rest)
      | rest => do
        let (fields, rest) ← readFields fuel rest
        .ok (ofFields fields, rest)
    | _ => readScalar cs

/-- The items of a list up to its end. -/
def readItems : Nat → List Char → Except ReadError (List Json × List Char)
  | 0, _ => .error .malformed
  | fuel + 1, cs => do
    let (v, rest) ← readValue fuel cs
    match skipSpace rest with
    | ']' :: rest => .ok ([v], rest)
    | ',' :: rest => do
      let (vs, rest) ← readItems fuel (skipSpace rest)
      .ok (v :: vs, rest)
    | _ => .error .malformed

/-- The fields of an object up to its end. -/
def readFields : Nat → List Char → Except ReadError (List (String × Json) × List Char)
  | 0, _ => .error .malformed
  | fuel + 1, cs =>
    match cs with
    | '"' :: rest => do
      let (key, rest) ← readChars fuel rest
      match skipSpace rest with
      | ':' :: rest => do
        let (v, rest) ← readValue fuel (skipSpace rest)
        match skipSpace rest with
        | '\x7d' :: rest => .ok ([(String.ofList key, v)], rest)
        | ',' :: rest => do
          let (fields, rest) ← readFields fuel (skipSpace rest)
          .ok ((String.ofList key, v) :: fields, rest)
        | _ => .error .malformed
      | _ => .error .malformed
    | _ => .error .malformed

end

/-- The value that a text writes. -/
def read (text : String) : Except ReadError Json := do
  let cs := text.toList
  let (v, rest) ← readValue (cs.length + 1) (skipSpace cs)
  if (skipSpace rest).isEmpty then .ok v else .error .malformed

end UpdateDispatch.Json
