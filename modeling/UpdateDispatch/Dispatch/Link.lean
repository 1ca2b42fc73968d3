import UpdateDispatch.Dispatch.Script

/-!
# Links

A chain is made of links. A `Link` is a middleware function as it stands in a chain, and
`Middleware` is what registrations take: a function, a composer, a container that gives a function
when it is asked for it, or a value that is no middleware at all.

A composer stands in a chain by its number, so that the chain runs whatever is registered on the
composer by then.
-/

namespace UpdateDispatch

mutual

/-- A middleware function. -/
inductive Link where
  | pass
  | script (s : Script)
  | composer (id : Nat)
  | concat (first second : Link)
  | lazily (c : Choice)
  | fork (side : Nat)
  | boundary (inner : Nat) (handler : Script)

/-- What is given where middleware is expected. -/
inductive Middleware where
  | link (l : Link)
  | composer (id : Nat)
  | container (name : String) (inner : Link)
  | other (v : Json)

/-- How a link chooses, for each context, the middleware that it runs. -/
inductive Choice where
  | branch (p : Probe Condition) (negated : Bool) (yes no : List Middleware)
  | route (router : Probe Condition) (handlers : List (Json × Option (List Middleware)))
    (fallback : List Middleware)
  | table (factory : Probe Condition) (specs : List (String × Spec)) (default : Spec)

end

instance : Inhabited Link := ⟨.pass⟩

end UpdateDispatch
