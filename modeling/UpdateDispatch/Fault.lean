import UpdateDispatch.Filter.Fault
import UpdateDispatch.Json.Display

/-!
# Faults

Everything that can go wrong while conditions are built, updates are dispatched or settings are
read. A fault is a cause; `Fault.name` is its class, `Fault.message` its text and `Fault.literal`
the form in which logs show it. A `failure` is a fault of middleware together with the context it
happened for; a `failureValue` holds a raised value that is no fault.

The text of a `mismatch`, an operation on a value of the wrong type, is not part of any answer, so
`Fault.message` has none for it.
-/

namespace UpdateDispatch

/-- The classes of faults that middleware raises by name. -/
inductive FaultClass where
  | filterQuery
  | invalidCommand
  | notInitialized
  | value
  | runtime
  | key
  | member
  | type
  | custom
  deriving DecidableEq, Repr

/-- The name of a class. -/
def FaultClass.name : FaultClass → String
  | .filterQuery => "FilterQueryError"
  | .invalidCommand => "InvalidCommandError"
  | .notInitialized => "BotNotInitializedError"
  | .value => "ValueError"
  | .runtime => "RuntimeError"
  | .key => "KeyError"
  | .member => "AttributeError"
  | .type => "TypeError"
  | .custom => "CustomError"

/-- What needs an identity that the bot does not have. -/
inductive MissingIdentity where
  | reading
  | dispatching
  | fetching
  deriving DecidableEq, Repr

/-- The text for a missing identity. -/
def MissingIdentity.message : MissingIdentity → String
  | .reading =>
    "Bot information unavailable! Make sure to call \x60await bot.init()\x60 before accessing " ++
      "\x60bot.bot_info\x60!"
  | .dispatching =>
    "Bot not initialized! Either call \x60await bot.init()\x60, or pass \x60bot_info\x60 to the " ++
      "\x60Bot\x60 constructor."
  | .fetching => "Cannot fetch bot information without an API client"

/-- Why the value of a field is refused. -/
inductive FieldCause where
  | missing
  | noRecord
  | noInteger
  | noIntegerText
  | fraction
  | notFinite
  | tooLarge
  | noFlag
  | noFlagText
  | noText
  | noList
  | unknownLevel
  | unknownKinds (kinds : List String)
  deriving DecidableEq, Repr

/-- The kind of error that a cause counts as. -/
def FieldCause.kind : FieldCause → String
  | .missing => "missing"
  | .noRecord => "dataclass_type"
  | .noInteger => "int_type"
  | .noIntegerText => "int_parsing"
  | .fraction => "int_from_float"
  | .notFinite => "finite_number"
  | .tooLarge => "int_parsing_size"
  | .noFlag => "bool_type"
  | .noFlagText => "bool_parsing"
  | .noText => "string_type"
  | .noList => "list_type"
  | .unknownLevel => "literal_error"
  | .unknownKinds _ => "value_error"

/-- The text of a cause, where the settings have a text of their own. -/
def FieldCause.text : FieldCause → Option String
  | .unknownKinds kinds =>
    some ("Value error, allowed_updates contains unknown update types: " ++
      Filter.joined ", " kinds)
  | _ => none

/-- A field that is refused: its place, as the names that lead to it, and why. -/
structure FieldFault where
  place : String
  cause : FieldCause
  deriving DecidableEq, Repr

/-- What can go wrong. -/
inductive Fault where
  | query (cause : Filter.QueryFault)
  | slashCommand (command : String)
  | nextCalledTwice
  | noIdentity (need : MissingIdentity)
  | noKey (key : String)
  | noAttribute (typeName member : String)
  | mismatch (detail : String)
  | notMiddleware (typeName : String)
  | noClient
  | noChat
  | invalid (fields : List FieldFault)
  | raised (kind : FaultClass) (value : Json)
  | failure (cause : Fault) (context : Option Nat)
  | failureValue (value : Json) (context : Option Nat)
  deriving Repr, Inhabited

namespace Fault

/-- The class of a fault. -/
def name : Fault → String
  | .query _ => "FilterQueryError"
  | .slashCommand _ => "InvalidCommandError"
  | .nextCalledTwice => "NextCalledTwiceError"
  | .noIdentity _ => "BotNotInitializedError"
  | .noKey _ => "KeyError"
  | .noAttribute _ _ => "AttributeError"
  | .mismatch _ | .notMiddleware _ => "TypeError"
  | .noClient | .noChat => "RuntimeError"
  | .invalid _ => "ValidationError"
  | .raised kind _ => kind.name
  | .failure _ _ | .failureValue _ _ => "BotError"

/-- The text for a command with a slash. -/
def slashText (command : String) : String :=
  let bare := String.ofList (command.toList.drop 1)
  s!"Do not include '/' when registering command handlers (use '{bare}' not '{command}')"

/-- The start of the text about a value that is no middleware. -/
def notMiddlewareText : String := "Expected middleware, got "

/-- The text about a raised value that is no fault. -/
def valueText (value : Json) : String :=
  let text := "Non-error value of type " ++ value.typeName ++ " thrown in middleware"
  match value with
  | .bool _ | .int _ | .float _ => text ++ ": " ++ value.display
  | .str s => text ++ ": " ++ String.ofList (s.toList.take 50)
  | _ => text ++ "!"

/-- The text of a fault, if it has one that answers show. -/
def message : Fault → Option String
  | .query cause => some cause.message
  | .slashCommand command => some (slashText command)
  | .nextCalledTwice => some "\x60next\x60 already called before!"
  | .noIdentity need => some need.message
  | .noKey key => some (Text.quoted key)
  | .noAttribute typeName member =>
    some s!"'{typeName}' object has no attribute '{member}'"
  | .mismatch _ => none
  | .notMiddleware typeName => some (notMiddlewareText ++ typeName)
  | .noClient => some "No API client available on this context"
  | .noChat => some "Missing chat information in this update"
  | .invalid _ => none
  | .raised .key value => some value.literal
  | .raised .type value =>
    if notMiddlewareText.toList.isPrefixOf value.display.toList then some value.display else none
  | .raised _ value => some value.display
  | .failure cause _ => (message cause).map fun text => cause.name ++ " in middleware: " ++ text
  | .failureValue value _ => some (valueText value)

/-- A fault as logs show it. -/
def literal : Fault → String
  | .raised kind value => kind.name ++ "(" ++ value.literal ++ ")"
  | .noKey key => "KeyError(" ++ Text.quoted key ++ ")"
  | .mismatch detail => "TypeError(" ++ Text.quoted detail ++ ")"
  | .failure cause _ => "BotError(" ++ literal cause ++ ")"
  | .failureValue value _ => "BotError(" ++ value.literal ++ ")"
  | fault => fault.name ++ "(" ++ Text.quoted (fault.message.getD "") ++ ")"

end Fault
end UpdateDispatch
