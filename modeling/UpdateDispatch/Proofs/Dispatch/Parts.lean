import UpdateDispatch.Proofs.Dispatch.Building

/-!
# The parts of chains

A chain is made of parts that do something: scripts, functions of the context, and composers that it
enters by their numbers. It may look into registers as well, while it runs. `Link.Has` says which
parts stand in a link, and `World.Holds` what a part leads to in a state: a composer to the parts of
its chain, and a register to those of what it holds.

What is built of middleware and expressions has no other parts than these have, and than the
registers lead to (`Build.denotes_within`).
-/

namespace UpdateDispatch

open Relation

/-! ## Parts -/

/-- What chains are made of, as far as it does something. -/
inductive Part where
  | composer (id : Nat)
  | script (s : Script)
  | probe (p : Probe Condition)
  | register (name : String)

/-- The part can note the value. -/
def Part.Notes (u : Json) : Part → Prop
  | script s => .note u ∈ s.actions
  | probe p => p.note = some u
  | composer _ | register _ => False

/-- The part stands in the expression. -/
inductive Expr.Has : Part → Expr → Prop
  | named (register : String) : Has (.register register) (.named register)
  | flat {part : Part} {e : Expr} (h : Has part e) : Has part (.flat e)
  | first {part : Part} {first second : Expr} (h : Has part first) :
      Has part (.joined first second)
  | second {part : Part} {first second : Expr} (h : Has part second) :
      Has part (.joined first second)
  | container {part : Part} {name : String} {inner : Expr} (h : Has part inner) :
      Has part (.container name inner)
  | script (actions : List Action) (plain : Bool) :
      Has (.script { actions, plain }) (.script actions plain)

/-- The part stands in the specification. -/
inductive Spec.Has (part : Part) : Spec → Prop
  | one {e : Expr} (h : e.Has part) : Has part (.one e)
  | many {es : List Expr} {e : Expr} (he : e ∈ es) (h : e.Has part) : Has part (.many es)

mutual

/-- The part stands in the link. -/
inductive Link.Has : Part → Link → Prop
  | script (s : Script) : Link.Has (.script s) (.script s)
  | composer (id : Nat) : Link.Has (.composer id) (.composer id)
  | first {part : Part} {first second : Link} (h : Link.Has part first) :
      Link.Has part (.concat first second)
  | second {part : Part} {first second : Link} (h : Link.Has part second) :
      Link.Has part (.concat first second)
  | lazily {part : Part} {c : Choice} (h : Choice.Has part c) : Link.Has part (.lazily c)
  | fork (side : Nat) : Link.Has (.composer side) (.fork side)
  | inner (inner : Nat) (handler : Script) : Link.Has (.composer inner) (.boundary inner handler)
  | handler (inner : Nat) (handler : Script) : Link.Has (.script handler) (.boundary inner handler)

/-- The part stands in the middleware. -/
inductive Middleware.Has : Part → Middleware → Prop
  | link {part : Part} {l : Link} (h : Link.Has part l) : Middleware.Has part (.link l)
  | composer (id : Nat) : Middleware.Has (.composer id) (.composer id)
  | container {part : Part} {name : String} {inner : Link} (h : Link.Has part inner) :
      Middleware.Has part (.container name inner)

/-- The part chooses, or it stands in something that there is to choose from. -/
inductive Choice.Has : Part → Choice → Prop
  | branch (p : Probe Condition) (negated : Bool) (yes no : List Middleware) :
      Choice.Has (.probe p) (.branch p negated yes no)
  | yes {part : Part} {p : Probe Condition} {negated : Bool} {yes no : List Middleware}
      {m : Middleware} (hm : m ∈ yes) (h : Middleware.Has part m) :
      Choice.Has part (.branch p negated yes no)
  | no {part : Part} {p : Probe Condition} {negated : Bool} {yes no : List Middleware}
      {m : Middleware} (hm : m ∈ no) (h : Middleware.Has part m) :
      Choice.Has part (.branch p negated yes no)
  | route (router : Probe Condition) (handlers : List (Json × Option (List Middleware)))
      (fallback : List Middleware) : Choice.Has (.probe router) (.route router handlers fallback)
  | handler {part : Part} {router : Probe Condition}
      {handlers : List (Json × Option (List Middleware))} {fallback mw : List Middleware}
      {key : Json} {m : Middleware} (hmw : (key, some mw) ∈ handlers) (hm : m ∈ mw)
      (h : Middleware.Has part m) : Choice.Has part (.route router handlers fallback)
  | fallback {part : Part} {router : Probe Condition}
      {handlers : List (Json × Option (List Middleware))} {fallback : List Middleware}
      {m : Middleware} (hm : m ∈ fallback) (h : Middleware.Has part m) :
      Choice.Has part (.route router handlers fallback)
  | table (factory : Probe Condition) (specs : List (String × Spec)) (default : Spec) :
      Choice.Has (.probe factory) (.table factory specs default)
  | row {part : Part} {factory : Probe Condition} {specs : List (String × Spec)} {default : Spec}
      {s : String × Spec} (hs : s ∈ specs) (h : s.2.Has part) :
      Choice.Has part (.table factory specs default)
  | default {part : Part} {factory : Probe Condition} {specs : List (String × Spec)}
      {default : Spec} (h : default.Has part) : Choice.Has part (.table factory specs default)

end

variable {P : Part → Prop}

/-- All parts of the link are among `P`. -/
def Link.Within (P : Part → Prop) (l : Link) : Prop := ∀ ⦃part⦄, l.Has part → P part

/-- All parts of the middleware are among `P`. -/
def Middleware.Within (P : Part → Prop) (m : Middleware) : Prop := ∀ ⦃part⦄, m.Has part → P part

/-- All parts of the expression are among `P`. -/
def Expr.Within (P : Part → Prop) (e : Expr) : Prop := ∀ ⦃part⦄, e.Has part → P part

theorem Link.within_pass : Link.pass.Within P := nofun

/-! ## What is built -/

theorem Build.composes_within : Composes (Middleware.Within P) (Link.Within P) where
  pass := Link.within_pass
  concat hfirst hsecond _ h := by
    cases h with
    | first h => exact hfirst h
    | second h => exact hsecond h
  link := ⟨fun h _ hpart => h (.link hpart), fun h _ hpart => by
    cases hpart with
    | link hpart => exact h hpart⟩
  composer h _ hpart := by
    cases hpart
    exact h (.composer _)
  container := ⟨fun h _ hpart => h (.container hpart), fun h _ hpart => by
    cases hpart with
    | container hpart => exact h hpart⟩
  other _ _ h := by cases h

/-- What an expression denotes has no parts but those of the expression, and those that the
registers lead to. -/
theorem Build.denotes_within {rs : List (String × Middleware)}
    (hrs : ∀ {register m}, P (.register register) → Named.find? register rs = some m →
      m.Within P) :
    Denotes rs (Expr.Within P) (Middleware.Within P) (Link.Within P) where
  toComposes := composes_within
  named h hfind := hrs (h (.named _)) hfind
  flat h _ hpart := h (.flat hpart)
  joined h := ⟨fun _ hpart => h (.first hpart), fun _ hpart => h (.second hpart)⟩
  inner h _ hpart := h (.container hpart)
  script h _ hpart := by
    cases hpart
    exact h (.script _ _)

/-! ## Trees -/

namespace World

/-- What a part leads to in a state. A bot leads to its error handler too. -/
inductive Holds (w : World) : Part → Part → Prop
  | chain {id : Nat} {part : Part} (h : (w.chain id).Has part) : Holds w (.composer id) part
  | handler {id : Nat} {b : BotState} {s : Script} (hb : w.bot? id = some b)
      (hs : b.handler = some s) : Holds w (.composer id) (.script s)
  | register {name : String} {m : Middleware} {part : Part}
      (hm : Named.find? name w.registers = some m) (h : m.Has part) :
      Holds w (.register name) part

/-- An update can get from the first composer to the second one. -/
def Reaches (w : World) (a b : Nat) : Prop := ReflTransGen w.Holds (.composer a) (.composer b)

theorem chain_addComposer (w : World) (c : Composer) :
    (w.addComposer c).chain w.composers.length = c.chain := by
  unfold chain addComposer
  rw [List.getElem?_concat_length]

theorem chain_append (w : World) {id : Nat} (hid : id < w.composers.length) (l : Link)
    (other : Nat) : (w.append id l).chain other =
      if id = other then .concat (w.chain other) l else w.chain other := by
  unfold chain append modifyComposer
  rw [List.getElem?_modify]
  by_cases heq : id = other
  · subst heq
    rw [List.getElem?_eq_getElem hid]
    simp
  · simp [heq]

theorem chain_addComposer_of_lt (w : World) (c : Composer) {other : Nat}
    (h : other < w.composers.length) : (w.addComposer c).chain other = w.chain other := by
  unfold chain addComposer
  rw [List.getElem?_append_left h]

/-- The state with a composer for a link appended to a composer. -/
def hook (w : World) (id : Nat) (l : Link) : World :=
  (w.addComposer { chain := l }).append id (.composer w.composers.length)

section Hook

variable {w : World} {id : Nat} {l : Link} (hid : id < w.composers.length)

include hid

theorem chain_hook (other : Nat) : (w.hook id l).chain other =
    if id = other then .concat ((w.addComposer { chain := l }).chain other)
      (.composer w.composers.length)
    else (w.addComposer { chain := l }).chain other :=
  chain_append _ (hid.trans (by simp [addComposer])) _ other

theorem chain_hook_new : (w.hook id l).chain w.composers.length = l := by
  rw [chain_hook hid, if_neg hid.ne, chain_addComposer]

theorem chain_hook_self :
    (w.hook id l).chain id = .concat (w.chain id) (.composer w.composers.length) := by
  rw [chain_hook hid, if_pos rfl, chain_addComposer_of_lt w _ hid]

theorem chain_hook_of_ne {other : Nat} (hother : other < w.composers.length) (hne : id ≠ other) :
    (w.hook id l).chain other = w.chain other := by
  rw [chain_hook hid, if_neg hne, chain_addComposer_of_lt w _ hother]

end Hook

end World

end UpdateDispatch
