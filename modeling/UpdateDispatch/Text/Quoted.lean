import UpdateDispatch.Text.Class

/-!
# Quoted literals

A text in quotes, on one line and without invisible characters. Single quotes are used unless the
text has single quotes and no double ones. The quote in use and the backslash are escaped, as are
tab, line feed and carriage return; other characters that do not print are written by number.
-/

namespace UpdateDispatch.Text

/-- `n` in hexadecimal, lower case, with zeros in front up to `width` digits. -/
def hexPadded (width n : Nat) : List Char :=
  let digits := Nat.toDigits 16 n
  List.replicate (width - digits.length) '0' ++ digits

/-- A character inside a literal that is quoted with `quote`. -/
def escaped (quote c : Char) : List Char :=
  if c == quote || c == '\\' then ['\\', c]
  else if c == '\t' then ['\\', 't']
  else if c == '\n' then ['\\', 'n']
  else if c == '\r' then ['\\', 'r']
  else if isPrintable c then [c]
  else if c.toNat < 0x100 then '\\' :: 'x' :: hexPadded 2 c.toNat
  else if c.toNat < 0x10000 then '\\' :: 'u' :: hexPadded 4 c.toNat
  else '\\' :: 'U' :: hexPadded 8 c.toNat

/-- The quote that a literal of the text uses. -/
def quoteOf (s : String) : Char :=
  if s.toList.contains '\'' && !s.toList.contains '"' then '"' else '\''

/-- The quoted literal of a text. -/
def quoted (s : String) : String :=
  let q := quoteOf s
  String.ofList (q :: (s.toList.flatMap (escaped q) ++ [q]))

end UpdateDispatch.Text
