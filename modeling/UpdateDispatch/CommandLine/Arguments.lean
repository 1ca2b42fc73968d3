/-!
# Command-line arguments

Splitting a list of arguments into options and the rest. An option has a long name and maybe a
short one, and takes a value or none. A value follows as the next argument, after an equals sign,
or right after the short name; short options without values may share one dash. Two dashes end the
options. Where options may not stand between other arguments, the first other argument ends them.
-/

namespace UpdateDispatch.CommandLine

/-- An option: its name in answers, its spellings, and whether it takes a value. -/
structure OptionSpec where
  name : String
  long : String
  short : Option Char := none
  takesValue : Bool := true
  deriving Repr

/-- Why arguments are refused. -/
inductive UsageFault where
  | unknownOption (text : String)
  | missingValue (name : String)
  | needlessValue (name : String)
  | unknownCommand (name : String)
  | missingCommand
  | missingArgument (name : String)
  | extraArgument (text : String)
  | badValue (name value : String)
  deriving DecidableEq, Repr

/-- An option that was given, with its value if it takes one. -/
structure Given where
  name : String
  value : Option String
  deriving DecidableEq, Repr

/-- Arguments split into options, in order, and the rest. -/
structure Parsed where
  options : List Given
  rest : List String
  deriving Repr

namespace Parsed

/-- The last value that was given for an option. -/
def value? (p : Parsed) (name : String) : Option String :=
  (p.options.reverse.find? fun g => g.name == name).bind Given.value

/-- The split arguments with one more other argument in front. -/
def withRest (a : String) (p : Parsed) : Parsed := { p with rest := a :: p.rest }

end Parsed

/-- What a single argument says about options, before the value is taken from the next one. -/
inductive Reading where
  | given (options : List Given)
  | needsValue (options : List Given) (name : String)
  | refused (fault : UsageFault)

/-- The options in a group of short ones. -/
def readShort (specs : List OptionSpec) : List Char → Reading
  | [] => .given []
  | c :: rest =>
    match specs.find? fun spec => spec.short == some c with
    | none => .refused (.unknownOption (String.ofList ['-', c]))
    | some spec =>
      if spec.takesValue then
        if rest.isEmpty then .needsValue [] spec.name
        else .given [{ name := spec.name, value := some (String.ofList rest) }]
      else
        let g : Given := { name := spec.name, value := none }
        match readShort specs rest with
        | .given options => .given (g :: options)
        | .needsValue options name => .needsValue (g :: options) name
        | .refused fault => .refused fault

/-- The long option in an argument. -/
def readLong (specs : List OptionSpec) (cs : List Char) : Option Reading :=
  let (name, after) := cs.span (· != '=')
  (specs.find? fun spec => spec.long == String.ofList name).map fun spec =>
    match after, spec.takesValue with
    | [], true => .needsValue [] spec.name
    | [], false => .given [{ name := spec.name, value := none }]
    | _ :: value, true => .given [{ name := spec.name, value := some (String.ofList value) }]
    | _ :: _, false => .refused (.needlessValue spec.name)

/-- The options in an argument that starts with a dash. -/
def readOptions (specs : List OptionSpec) (cs : List Char) : Reading :=
  match readLong specs cs with
  | some reading => reading
  | none =>
    match cs with
    | '-' :: '-' :: _ => .refused (.unknownOption (String.ofList cs))
    | _ => readShort specs (cs.drop 1)

/-- Whether an argument is an option by its form. -/
def isOption (cs : List Char) : Bool :=
  match cs with
  | '-' :: _ :: _ => true
  | _ => false

/-- Arguments split into options and the rest. -/
def split (specs : List OptionSpec) (mixed : Bool) : List String → Except UsageFault Parsed
  | [] => .ok { options := [], rest := [] }
  | a :: rest =>
    if a == "--" then .ok { options := [], rest }
    else if !isOption a.toList then
      if mixed then (split specs mixed rest).map (Parsed.withRest a)
      else .ok { options := [], rest := a :: rest }
    else
      match readOptions specs a.toList, rest with
      | .refused fault, _ => .error fault
      | .given options, rest =>
        (split specs mixed rest).map fun p => { p with options := options ++ p.options }
      | .needsValue _ name, [] => .error (.missingValue name)
      | .needsValue options name, value :: rest =>
        (split specs mixed rest).map fun p =>
          { p with options := options ++ { name, value := some value } :: p.options }

end UpdateDispatch.CommandLine
