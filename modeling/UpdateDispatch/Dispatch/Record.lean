import UpdateDispatch.Context.Basic
import UpdateDispatch.Settings.Basic

/-!
# Records of what happens

Scripts note events, and the dispatcher logs notices. `Notice.level` and `Notice.message` give the
line of the log for a notice.
-/

namespace UpdateDispatch

/-- What scripts note. -/
inductive Event where
  | note (v : Json)
  | accessed (container : String)
  | caught (fault : Fault)
  | race (first second : Option Fault)
  | matched (m : Matched)
  | field (key : String) (v : Json)
  | accessor (name : String) (m : Matched)
  | filter (query : Json) (passes : Bool)
  | called (method : String) (payload : Json)
  | replied (v : Json)
  | failed (failure : Fault) (updateId : Json)
  deriving Repr

/-- What the dispatcher logs. -/
inductive Notice where
  | forkFailed (fault : Fault)
  | boundaryCaught (fault : Fault)
  | processing (updateId : Json)
  | chainFailed (updateId : Json)
  | unhandled (updateId : Json)
  | failed (updateId : Json) (failure : Fault)
  | noHandler
  | initializing
  | alreadyKnown
  | identified (username : Json)
  | unlistened (kinds : List String)
  deriving Repr

namespace Fault

/-- What a failure of middleware holds, as logs show it. -/
def innerLiteral : Fault → String
  | .failure cause _ => cause.literal
  | .failureValue v _ => v.literal
  | fault => fault.literal

end Fault

namespace Notice

/-- The level of a notice. -/
def level : Notice → LogLevel
  | forkFailed _ | boundaryCaught _ | processing _ | chainFailed _ | initializing | alreadyKnown
  | identified _ => .debug
  | unhandled _ => .critical
  | failed _ _ | noHandler => .error
  | unlistened _ => .warning

/-- The text of a notice. -/
def message : Notice → String
  | forkFailed fault => "Fork branch also failed: " ++ fault.literal
  | boundaryCaught fault => "Error boundary caught " ++ fault.literal
  | processing id => "Processing update " ++ id.display
  | chainFailed id => "Error in middleware for update " ++ id.display
  | unhandled id => "Unable to handle update " ++ id.display
  | failed id failure =>
    "Error in middleware while handling update " ++ id.display ++ ": " ++ failure.innerLiteral
  | noHandler => "No error handler was set! Set your own with \x60bot.catch(...)\x60"
  | initializing => "Initializing bot"
  | alreadyKnown => "Bot info was set by now, will not overwrite"
  | identified username => "I am " ++ username.display ++ "!"
  | unlistened kinds =>
    "Listeners registered for update types not in allowed_updates, they may not be received: " ++
      Filter.quotedNames kinds

end Notice
end UpdateDispatch
