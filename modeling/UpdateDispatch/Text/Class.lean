import UpdateDispatch.Text.Table.Class

/-!
# Character classes

White space, decimal digits, word characters and printable characters over all of Unicode. Each
class answers for ASCII directly and looks beyond it in a table of runs.
-/

namespace UpdateDispatch.Text

/-- Whether a code point lies in one of the runs. -/
def inRuns (runs : Array (Nat × Nat × Nat)) (c : Nat) : Bool :=
  runs.any fun (first, last, step) => first ≤ c && c ≤ last && (c - first) % step == 0

/-- White space: the blanks of ASCII, its four separators 28 to 31, and Unicode's. -/
def isBlank (c : Char) : Bool :=
  if c.toNat < 128 then
    c == ' ' || (9 ≤ c.toNat && c.toNat ≤ 13) || (28 ≤ c.toNat && c.toNat ≤ 31)
  else inRuns Table.blankRuns c.toNat

/-- Decimal digits of every script. -/
def isDecimal (c : Char) : Bool :=
  if c.toNat < 128 then c.isDigit else inRuns Table.decimalRuns c.toNat

/-- Letters, digits and other numeric characters of every script, and the underscore. -/
def isWord (c : Char) : Bool :=
  if c.toNat < 128 then c.isAlphanum || c == '_' else inRuns Table.wordRuns c.toNat

/-- Characters that a quoted literal shows as they are. -/
def isPrintable (c : Char) : Bool :=
  if c.toNat < 128 then 32 ≤ c.toNat && c.toNat < 127 else !inRuns Table.unprintableRuns c.toNat

/-- The text without the white space at its start. -/
def trimStart : List Char → List Char := List.dropWhile isBlank

end UpdateDispatch.Text
