import UpdateDispatch.Identity
import UpdateDispatch.Listener

/-!
# Scripted middleware

Middleware, predicates, handlers and registrations as data. A `Script` is the body of a middleware
function: actions that are performed in order. An `Expr` denotes middleware, a `Probe` is a function
of the context, and a `Registration` is a call that adds a link to a composer.

A script may be plain instead of suspending. Such a function runs inside the call, and the first of
its actions that gives something to wait for is its last one.
-/

namespace UpdateDispatch

/-- What a script raises: a fault of some class, a failure of middleware, or a double call. -/
inductive ThrownKind where
  | plain (kind : FaultClass)
  | failure
  | calledTwice
  deriving DecidableEq, Repr

/-- A fault to be raised, with the value that it is made of. -/
structure Throw where
  kind : ThrownKind
  value : Json
  deriving Repr

/-- The fault that is raised for a context, or outside of any. -/
def Throw.fault (t : Throw) (context : Option Nat) : Fault :=
  match t.kind with
  | .plain kind => .raised kind t.value
  | .failure => .failureValue t.value context
  | .calledTwice =>
    .mismatch "NextCalledTwiceError.__init__() takes 1 positional argument but 2 were given"

/-- Where a function of the context takes its value from: a condition, a constant, or a field of
the update, which may be compared with a value. -/
inductive Source (C : Type) where
  | condition (c : C)
  | constant (v : Json)
  | field (name : String) (equals : Option Json)
  deriving Repr

/-- A function of the context. It suspends, notes a value, raises and answers, in this order, each
but the last as it is asked to. A reading has one value for the answers that are true, and one for
the others. -/
structure Probe (C : Type) where
  delay : Nat := 0
  note : Option Json := none
  throws : Option Throw := none
  source : Source C
  reading : Option (Json × Json) := none
  deriving Repr

mutual

/-- An expression that denotes middleware. -/
inductive Expr where
  | pass
  | named (register : String)
  | value (v : Json)
  | flat (e : Expr)
  | joined (first second : Expr)
  | container (name : String) (inner : Expr)
  | script (actions : List Action) (plain : Bool)

/-- One middleware expression, or a list of them. -/
inductive Spec where
  | one (e : Expr)
  | many (es : List Expr)

/-- What a script does in one step. -/
inductive Action where
  | note (v : Json)
  | next
  | nextDropped
  | nextCaught
  | nextTwice
  | pause (count : Nat)
  | throw (t : Throw)
  | noteMatch
  | setMatch (v : Json)
  | setField (key : String) (v : Json)
  | noteField (key : String)
  | noteAccessor (name : String)
  | noteFilter (query : Json)
  | reply (text : Json) (other : List (String × Json))
  | step (s : Step)
  | rethrow
  | throwCause
  | noteFailure

/-- A registration, with the register for the object that it gives. -/
inductive Step where
  | create (into : Option String) (mw : List Expr)
  | createBot (into : Option String) (identity : Option Json) (throws : Option Throw)
  | createBotFrom (into : Option String) (settings : List (String × Json))
  | register (on : String) (into : Option String) (r : Registration)
  | grab (on : String) (into : Option String)
  | handle (on : String) (actions : List Action) (plain : Bool)

/-- A call that adds a link to a composer. -/
inductive Registration where
  | use (mw : List Expr)
  | fork (mw : List Expr)
  | filter (p : Probe Listener) (mw : List Expr)
  | drop (p : Probe Listener) (mw : List Expr)
  | branch (p : Probe Listener) (yes no : Spec)
  | lazily (factory : Probe Listener) (table : List (String × Spec)) (default : Spec)
  | route (router : Probe Listener) (handlers : List (Json × Spec)) (fallback : Spec)
  | boundary (actions : List Action) (plain : Bool) (mw : List Expr)
  | listen (l : Listener) (mw : List Expr)

end

instance : Inhabited Expr := ⟨.pass⟩

instance : Inhabited Spec := ⟨.many []⟩

instance : Inhabited Action := ⟨.next⟩

instance : Inhabited Step := ⟨.create none []⟩

instance : Inhabited Registration := ⟨.use []⟩

/-- The body of a function. -/
structure Script where
  actions : List Action
  plain : Bool

end UpdateDispatch
