import UpdateDispatch.Condition

/-!
# Listeners

What a listener waits for, as it is written at registration. `Listener.condition` builds the
condition on contexts that it stands for, and refuses a listener that is not well-formed.
-/

namespace UpdateDispatch

/-- What a listener waits for. -/
inductive Listener where
  | filter (query : Json)
  | text (triggers : List Trigger)
  | command (names : Json)
  | reaction (wanted : Json)
  | chatType (types : Json)
  | field (f : TriggerField) (triggers : List Trigger)
  deriving Repr

/-- The condition that a listener stands for. -/
def Listener.condition : Listener → Except Fault Condition
  | filter query => Condition.ofFilter query
  | text triggers => Condition.ofText triggers
  | command names => Condition.ofCommand names
  | reaction wanted => Condition.ofReaction wanted
  | chatType types => Condition.ofChatType types
  | field f triggers => Condition.ofField f triggers

end UpdateDispatch
