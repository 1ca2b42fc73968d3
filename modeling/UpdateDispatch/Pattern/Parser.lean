import UpdateDispatch.Pattern.Basic

/-!
# Reading patterns

`Regex.parse?` reads the text of a pattern: literals, the dot, anchors, classes, sets, groups,
alternatives and repetitions, each of which may be lazy. A text that is no pattern gives none.
-/

namespace UpdateDispatch.Pattern

/-- The character that an escaped letter stands for, where it stands for one. -/
def escapedChar? (c : Char) : Option Char :=
  match c with
  | 'n' => some '\n'
  | 't' => some '\t'
  | 'r' => some '\r'
  | 'f' => some '\x0c'
  | 'v' => some '\x0b'
  | 'a' => some '\x07'
  | c => if c.isAlphanum then none else some c

/-- The class that an escaped letter stands for; a capital stands for what is not in it. -/
def escapedClass? (c : Char) : Option SetItem :=
  match c with
  | 'd' => some (.inClass .decimal false)
  | 'D' => some (.inClass .decimal true)
  | 'w' => some (.inClass .word false)
  | 'W' => some (.inClass .word true)
  | 's' => some (.inClass .blank false)
  | 'S' => some (.inClass .blank true)
  | _ => none

/-- The anchor that an escaped letter stands for. -/
def escapedAnchor? (c : Char) : Option Anchor :=
  match c with
  | 'b' => some .wordEdge
  | 'B' => some .insideWord
  | 'A' => some .textStart
  | 'Z' => some .textStop
  | _ => none

/-- A pattern after a backslash. -/
def escape? (c : Char) : Option Pattern :=
  match escapedClass? c with
  | some item => some (.set false [item])
  | none =>
    match escapedAnchor? c with
    | some a => some (.anchor a)
    | none => (escapedChar? c).map .char

/-- One member of a set, with the text after it: a class, or a single character. -/
def setMember? : List Char → Option (Sum CharClass Char × Bool × List Char)
  | '\\' :: c :: rest =>
    match escapedClass? c with
    | some (.inClass cls negated) => some (.inl cls, negated, rest)
    | _ =>
      if c = 'b' then some (.inr '\x08', false, rest)
      else (escapedChar? c).map fun d => (.inr d, false, rest)
  | ['\\'] => none
  | c :: rest => some (.inr c, false, rest)
  | [] => none

/-- The members of a set up to its closing bracket. A bracket that comes first is a member. -/
def setItems? : Nat → Bool → List Char → Option (List SetItem × List Char)
  | 0, _, _ => none
  | fuel + 1, first, cs =>
    match first, cs with
    | false, ']' :: rest => some ([], rest)
    | _, cs => do
      let (member, negated, rest) ← setMember? cs
      match member, rest with
      | .inl cls, rest =>
        let (items, rest) ← setItems? fuel false rest
        some (.inClass cls negated :: items, rest)
      | .inr c, '-' :: ']' :: rest => some ([.range c c, .range '-' '-'], rest)
      | .inr c, '-' :: more =>
        match ← setMember? more with
        | (.inr d, _, rest) =>
          if c ≤ d then
            let (items, rest) ← setItems? fuel false rest
            some (.range c d :: items, rest)
          else none
        | _ => none
      | .inr c, rest =>
        let (items, rest) ← setItems? fuel false rest
        some (.range c c :: items, rest)

/-- A set after its opening bracket. -/
def set? (cs : List Char) : Option (Pattern × List Char) := do
  let (negated, cs) := match cs with
    | '^' :: rest => (true, rest)
    | _ => (false, cs)
  let (items, rest) ← setItems? (cs.length + 1) true cs
  some (.set negated items, rest)

/-- The number that decimal digits at the start of a text write, if there are any. -/
def number? (cs : List Char) : Option Nat × List Char :=
  let (ds, rest) := cs.span Char.isDigit
  (if ds.isEmpty then none else (String.ofList ds).toNat?, rest)

/-- The bounds of a repetition in braces, after the opening one. -/
def braces? (cs : List Char) : Option (Nat × Option Nat × List Char) :=
  let (low, rest) := number? cs
  match rest with
  | '\x7d' :: rest => low.map fun n => (n, some n, rest)
  | ',' :: rest =>
    let (high, rest) := number? rest
    match rest with
    | '\x7d' :: rest => some (low.getD 0, high, rest)
    | _ => none
  | _ => none

/-- The bounds of a repetition at the start of a text, if one is there. -/
def bounds? : List Char → Option (Nat × Option Nat × List Char)
  | '*' :: rest => some (0, none, rest)
  | '+' :: rest => some (1, none, rest)
  | '?' :: rest => some (0, some 1, rest)
  | '\x7b' :: rest => braces? rest
  | _ => none

/-- Whether a pattern can be repeated. -/
def repeatable : Pattern → Bool
  | .anchor _ | .repeated _ _ _ _ | .empty => false
  | _ => true

/-- A pattern with the repetition that follows it, if one does. -/
def withRepetition? (p : Pattern) (cs : List Char) : Option (Pattern × List Char) :=
  match bounds? cs with
  | none => some (p, cs)
  | some (least, most, rest) =>
    if !p.repeatable || (most.map (decide <| · < least)).getD false then none
    else
      let (greedy, rest) := match rest with
        | '?' :: rest => (false, rest)
        | _ => (true, rest)
      if (bounds? rest).isSome then none else some (.repeated p least most greedy, rest)

mutual

/-- Alternatives, up to a closing bracket or the end. `next` is the number of the next group. -/
def alternatives? : Nat → Nat → List Char → Option (Pattern × Nat × List Char)
  | 0, _, _ => none
  | fuel + 1, next, cs => do
    let (p, next, rest) ← sequence? fuel next cs
    match rest with
    | '|' :: rest =>
      let (q, next, rest) ← alternatives? fuel next rest
      some (.either p q, next, rest)
    | rest => some (p, next, rest)

/-- A sequence, up to a bar, a closing bracket or the end. -/
def sequence? : Nat → Nat → List Char → Option (Pattern × Nat × List Char)
  | 0, _, _ => none
  | fuel + 1, next, cs =>
    match cs with
    | [] => some (.empty, next, [])
    | '|' :: _ => some (.empty, next, cs)
    | ')' :: _ => some (.empty, next, cs)
    | cs => do
      let (p, next, rest) ← item? fuel next cs
      let (p, rest) ← withRepetition? p rest
      let (q, next, rest) ← sequence? fuel next rest
      some (.seq p q, next, rest)

/-- One item of a sequence. -/
def item? : Nat → Nat → List Char → Option (Pattern × Nat × List Char)
  | 0, _, _ => none
  | fuel + 1, next, cs =>
    match cs with
    | [] => none
    | '(' :: '?' :: ':' :: rest => do
      let (p, next, rest) ← alternatives? fuel next rest
      match rest with
      | ')' :: rest => some (.seq p .empty, next, rest)
      | _ => none
    | '(' :: '?' :: _ => none
    | '(' :: rest => do
      let (p, next', rest) ← alternatives? fuel (next + 1) rest
      match rest with
      | ')' :: rest => some (.group next p, next', rest)
      | _ => none
    | '[' :: rest => do
      let (p, rest) ← set? rest
      some (p, next, rest)
    | '.' :: rest => some (.any, next, rest)
    | '^' :: rest => some (.anchor .start, next, rest)
    | '$' :: rest => some (.anchor .stop, next, rest)
    | '\\' :: c :: rest => (escape? c).map fun p => (p, next, rest)
    | ['\\'] => none
    | '*' :: _ => none
    | '+' :: _ => none
    | '?' :: _ => none
    | '\x7b' :: rest =>
      if (braces? rest).isSome then none else some (.char '\x7b', next, rest)
    | c :: rest => some (.char c, next, rest)

end

end UpdateDispatch.Pattern

namespace UpdateDispatch.Regex

/-- The pattern that a text writes, under the given flags. -/
def parse? (source : String) (flags : PatternFlags) : Option Regex := do
  let cs := source.toList
  let (pattern, next, rest) ← Pattern.alternatives? (3 * cs.length + 3) 1 cs
  if rest.isEmpty then some { pattern, flags, groups := next - 1 } else none

end UpdateDispatch.Regex
