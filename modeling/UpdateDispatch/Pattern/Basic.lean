import UpdateDispatch.Text.Case

/-!
# Patterns

The syntax of patterns that triggers search texts with, and what a single character has to satisfy.
Under `ignoreCase` two characters are the same if their lower cases are, or if these form one of a
few pairs that share an upper case.
-/

namespace UpdateDispatch

/-- How a pattern is read: whether case counts, whether lines have their own ends, and whether the
dot matches a line feed. -/
structure PatternFlags where
  ignoreCase : Bool := false
  multiLine : Bool := false
  dotAll : Bool := false
  deriving DecidableEq, Repr, Inhabited

/-- Classes of characters with a letter of their own. -/
inductive CharClass where
  | decimal
  | word
  | blank
  deriving DecidableEq, Repr

/-- A member of a set of characters. -/
inductive SetItem where
  | range (first last : Char)
  | inClass (c : CharClass) (negated : Bool)
  deriving DecidableEq, Repr

/-- Places between characters. -/
inductive Anchor where
  | start
  | stop
  | textStart
  | textStop
  | wordEdge
  | insideWord
  deriving DecidableEq, Repr

/-- A pattern. Groups carry their number, counted by their opening brackets. -/
inductive Pattern where
  | empty
  | char (c : Char)
  | any
  | set (negated : Bool) (items : List SetItem)
  | anchor (a : Anchor)
  | seq (first second : Pattern)
  | either (first second : Pattern)
  | group (number : Nat) (body : Pattern)
  | repeated (body : Pattern) (least : Nat) (most : Option Nat) (greedy : Bool)
  deriving Repr, Inhabited

/-- A pattern with its flags and the number of its groups. -/
structure Regex where
  pattern : Pattern
  flags : PatternFlags
  groups : Nat
  deriving Repr, Inhabited

namespace Pattern

/-- Whether a character is in a class. -/
def inClass (cls : CharClass) (c : Char) : Bool :=
  match cls with
  | .decimal => Text.isDecimal c
  | .word => Text.isWord c
  | .blank => Text.isBlank c

/-- The lower case of a character, as one character. -/
def fold (c : Char) : Char := (Text.lowerChar c).headD c

/-- Whether a character has case. -/
def hasCase (c : Char) : Bool := Text.lowerChar c != [c] || Text.upperChar c != [c]

/-- Lower-case characters that share an upper case, each with the others. -/
def partners (c : Char) : List Char :=
  let families : List (List Nat) :=
    [[105, 305], [115, 383], [181, 956], [837, 953, 8126], [912, 8147], [944, 8163], [946, 976],
      [949, 1013], [952, 977], [954, 1008], [960, 982], [961, 1009], [962, 963], [966, 981],
      [1074, 7296], [1076, 7297], [1086, 7298], [1089, 7299], [1090, 7300, 7301], [1098, 7302],
      [1123, 7303], [7304, 42571], [7777, 7835], [64261, 64262]]
  match families.find? (·.contains c.toNat) with
  | some family => family.map Char.ofNat
  | none => [c]

/-- Whether two characters are the same but for case. -/
def sameFolded (c d : Char) : Bool := (partners (fold c)).contains (fold d)

/-- The characters whose lower case is the given one. -/
def unfold (c : Char) : List Char :=
  let ascii := if 97 ≤ c.toNat ∧ c.toNat ≤ 122 then [Char.ofNat (c.toNat - 32)] else []
  let dotted := if c = 'i' then ['İ'] else []
  let listed := Text.Table.lowerRuns.toList.filterMap fun (first, last, step, shift) =>
    let n := ((c.toNat : Int) - shift).toNat
    if first ≤ n ∧ n ≤ last ∧ (n - first) % step = 0 ∧ fold (Char.ofNat n) = c
    then some (Char.ofNat n) else none
  ascii ++ dotted ++ listed

/-- Whether a member of a set has the character. -/
def SetItem.has (item : SetItem) (c : Char) : Bool :=
  match item with
  | .range first last => first ≤ c && c ≤ last
  | .inClass cls negated => inClass cls c != negated

/-- Whether a member of a set has the character or another one that differs in case only. -/
def SetItem.hasFolded (item : SetItem) (c : Char) : Bool :=
  match item with
  | .range first last =>
    (partners (fold c)).any fun d =>
      (d :: unfold d).any fun e => first ≤ e && e ≤ last && fold e == d
  | .inClass cls negated => inClass cls (fold c) != negated

/-- Whether a literal character accepts a character of the text. -/
def acceptsChar (flags : PatternFlags) (expected c : Char) : Bool :=
  if flags.ignoreCase && hasCase expected then sameFolded expected c else expected == c

/-- Whether a set accepts a character of the text. -/
def acceptsSet (flags : PatternFlags) (negated : Bool) (items : List SetItem) (c : Char) : Bool :=
  (if flags.ignoreCase then items.any (SetItem.hasFolded · c)
    else items.any (SetItem.has · c)) != negated

end Pattern
end UpdateDispatch
