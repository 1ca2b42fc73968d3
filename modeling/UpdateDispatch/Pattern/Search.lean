import UpdateDispatch.Pattern.Basic
import UpdateDispatch.Context.Basic

/-!
# Searching a text for a pattern

`Pattern.run` matches a pattern at a place of the text and goes on with what follows; it tries
alternatives in order, more repetitions before fewer ones if greedy and fewer before more if not,
and comes back to the next choice when what follows does not match. `Regex.search` takes the
leftmost place where the pattern matches.

A repetition that consumed nothing is not followed by another one beyond the least number.
-/

namespace UpdateDispatch

/-- A place in a text, with the groups closed so far. -/
structure Cursor where
  before : List Char
  after : List Char
  position : Nat
  groups : List (Nat × Nat × Nat) := []
  deriving Repr

/-- What a pattern does at a place, given what follows it. -/
abbrev Matcher := Cursor → (Cursor → Option Cursor) → Option Cursor

namespace Cursor

/-- The place after one more character, if the next one is accepted. -/
def advance? (accepts : Char → Bool) (s : Cursor) : Option Cursor :=
  match s.after with
  | c :: rest =>
    if accepts c then
      some { s with before := c :: s.before, after := rest, position := s.position + 1 }
    else none
  | [] => none

/-- Whether a word character stands first in a list. -/
def startsWord : List Char → Bool
  | c :: _ => Text.isWord c
  | [] => false

/-- Whether a place satisfies an anchor. The only place of an empty text is neither an edge of a
word nor inside of one. -/
def satisfies (multiLine : Bool) (s : Cursor) : Anchor → Bool
  | .start => s.before.isEmpty || (multiLine && s.before.head? == some '\n')
  | .stop =>
    s.after.isEmpty || s.after == ['\n'] || (multiLine && s.after.head? == some '\n')
  | .textStart => s.before.isEmpty
  | .textStop => s.after.isEmpty
  | .wordEdge => startsWord s.before != startsWord s.after
  | .insideWord =>
    startsWord s.before == startsWord s.after && !(s.before.isEmpty && s.after.isEmpty)

/-- The place with a group closed that was opened at `start`. -/
def close (number start : Nat) (s : Cursor) : Cursor :=
  { s with groups := (number, start, s.position) :: s.groups }

end Cursor

namespace Pattern

/-- Matches a body again and again. `count` bodies matched so far, and `last` is the place where
the last one beyond the least number began. -/
def loop (body : Matcher) (least : Nat) (most : Option Nat) (greedy : Bool) :
    Nat → Nat → Option Nat → Matcher
  | 0, _, _, s, k => k s
  | fuel + 1, count, last, s, k =>
    if count < least then
      body s fun s' => loop body least most greedy fuel (count + 1) last s' k
    else
      let mayGoOn := (most.map (decide <| count < ·)).getD true && last != some s.position
      let again (_ : Unit) : Option Cursor :=
        if mayGoOn then
          body s fun s' => loop body least most greedy fuel (count + 1) (some s.position) s' k
        else none
      if greedy then (again ()).or (k s)
      else
        match k s with
        | some result => some result
        | none => again ()

/-- What a pattern does at a place. -/
def run (flags : PatternFlags) : Pattern → Matcher
  | .empty, s, k => k s
  | .char c, s, k => (s.advance? (acceptsChar flags c)).bind k
  | .any, s, k => (s.advance? fun c => flags.dotAll || c != '\n').bind k
  | .set negated items, s, k => (s.advance? (acceptsSet flags negated items)).bind k
  | .anchor a, s, k => if s.satisfies flags.multiLine a then k s else none
  | .seq p q, s, k => run flags p s fun s' => run flags q s' k
  | .either p q, s, k =>
    match run flags p s k with
    | some result => some result
    | none => run flags q s k
  | .group number p, s, k => run flags p s fun s' => k (s'.close number s.position)
  | .repeated p least most greedy, s, k =>
    loop (run flags p) least most greedy (least + s.after.length + 2) 0 none s k

end Pattern

namespace Regex

/-- The text between two places. -/
def piece (text : List Char) (start stop : Nat) : String :=
  String.ofList ((text.take stop).drop start)

/-- The last closed bounds of a group. -/
def group? (text : List Char) (s : Cursor) (number : Nat) : Option String :=
  (s.groups.find? (·.1 == number)).map fun (_, start, stop) => piece text start stop

/-- What was found between a start and the cursor where the match ended. -/
def found (r : Regex) (text : List Char) (start : Nat) (s : Cursor) : Found where
  text := piece text start s.position
  start := start
  stop := s.position
  groups := (List.range r.groups).map fun i => group? text s (i + 1)

/-- The match that begins at a place. -/
def matchAt (r : Regex) (text before after : List Char) (position : Nat) : Option Found :=
  (r.pattern.run r.flags { before, after, position } some).map (r.found text position)

/-- The match at the first place, from a given one on, where there is one. -/
def searchFrom (r : Regex) (text before : List Char) (position : Nat) :
    List Char → Option Found
  | [] => r.matchAt text before [] position
  | c :: rest =>
    match r.matchAt text before (c :: rest) position with
    | some f => some f
    | none => searchFrom r text (c :: before) (position + 1) rest

/-- The leftmost match in a text. -/
def search (r : Regex) (text : String) : Option Found :=
  r.searchFrom text.toList [] 0 text.toList

end Regex
end UpdateDispatch
