import UpdateDispatch.CommandLine.Arguments
import UpdateDispatch.Filter.Predicate
import UpdateDispatch.Settings.File

/-!
# The command line

The program takes one of three commands. `check` shows what filter queries expand to, `match`
judges a recorded update by filter queries, and `config` shows the settings in effect. `run` gives
what is printed and the exit code. It reads files through `Files`, so that it runs on any
collection of files.

The settings are loaded before the command looks at its own arguments, but after its name has been
recognized.
-/

namespace UpdateDispatch.CommandLine

/-- What stands under a path. -/
inductive Entry where
  | missing
  | directory
  | file (content : ByteArray)

/-- Access to files: the file with the settings, and any other one by its path. -/
structure Files (m : Type → Type) where
  settings : m Entry
  file : String → m Entry

/-- What is printed: a line, or a table. -/
inductive Printed where
  | line (text : String)
  | table (title : String) (columns : List String) (rows : List (List String))
  deriving DecidableEq, Repr

/-- What no command handles. -/
inductive Escaped where
  | fault (f : Fault)
  | unknownLevel (name : String)
  | tooManyDigits
  | notText
  | directory

/-- The class of what no command handles. -/
def Escaped.name : Escaped → String
  | .fault f => f.name
  | .unknownLevel _ | .tooManyDigits => "ValueError"
  | .notText => "UnicodeDecodeError"
  | .directory => "IsADirectoryError"

/-- How the program ends. -/
inductive End where
  | exit (code : Nat)
  | usage (fault : UsageFault)
  | escaped (e : Escaped)

/-- What the program prints, and how it ends. -/
structure Result where
  output : List Printed := []
  ending : End := .exit 0

/-- The exit code of the program. -/
def Result.exitCode (r : Result) : Nat :=
  match r.ending with
  | .exit code => code
  | .usage _ => 2
  | .escaped _ => 1

/-- The name and the version of the program. -/
def versionText : String := "⛓ chainbot v0.1.0"

/-- The option that shows help. -/
def helpOption : OptionSpec := { name := "help", long := "--help", takesValue := false }

/-- The options before the name of the command. -/
def mainOptions : List OptionSpec :=
  [{ name := "version", long := "--version", short := some 'v', takesValue := false },
    { name := "log_level", long := "--log-level" }, helpOption]

/-- The commands. -/
inductive Subcommand where
  | check
  | judge
  | config
  deriving DecidableEq, Repr

namespace Subcommand

/-- The command of a name. -/
def named? : String → Option Subcommand
  | "check" => some check
  | "match" => some judge
  | "config" => some config
  | _ => none

/-- The options of a command. -/
def options : Subcommand → List OptionSpec
  | check => [helpOption]
  | judge =>
    [{ name := "update", long := "--update", short := some 'u' },
      { name := "me_id", long := "--me-id" }, { name := "me_username", long := "--me-username" },
      helpOption]
  | config => [{ name := "path", long := "--path", short := some 'p' }, helpOption]

end Subcommand

/-- A path in its plain form: without empty parts and parts that are a point. -/
def plainPath (path : String) : String :=
  let parts := (Text.pieces '/' path.toList).filter fun part =>
    !part.isEmpty && part != ['.']
  let text := Filter.joined "/" (parts.map String.ofList)
  match path.toList with
  | '/' :: _ => "/" ++ text
  | _ => if text.isEmpty then "." else text

/-- The number that an option value writes. -/
def number? (value : String) : Option Int :=
  let cs := (Text.trimStart value.toList)
  let cs := (Text.trimStart cs.reverse).reverse
  let digits (cs : List Char) : Option Nat :=
    (Settings.groupedDigits? cs).bind fun ds =>
      if Json.maxDigits < ds.length then none else some (Json.digitsValue ds)
  match cs with
  | '-' :: rest => (digits rest).map fun n => -(n : Int)
  | '+' :: rest => (digits rest).map fun n => (n : Int)
  | cs => (digits cs).map fun n => (n : Int)

/-- The row of a query in the table of `check`, and whether the query is refused. -/
def checkRow (query : String) : List String × Bool :=
  match Filter.expand [query] with
  | .ok paths => ([query, Filter.joined "\n" paths], false)
  | .error fault => ([query, "[red]" ++ fault.message.getD "" ++ "[/red]"], true)

/-- Filter queries shown with what they expand to. -/
def check (queries : List String) : Result :=
  let rows := queries.map checkRow
  { output := [.table "Filter queries" ["Query", "Expands to"] (rows.map Prod.fst)]
    ending := .exit (if rows.any Prod.snd then 1 else 0) }

/-- Why an update file cannot be read, in a few words. -/
def readErrorText : Json.ReadError → String
  | .malformed => "malformed"
  | .tooManyDigits => "number too long"

/-- An update judged by filter queries, for a bot with the given number. -/
def judge (queries : List String) (path : String) (content : ByteArray) (me : Int) : Result :=
  match Filter.compileQueries queries with
  | .error fault =>
    { output := [.line ("[red]Invalid query:[/red] " ++ fault.message.getD "")]
      ending := .exit 1 }
  | .ok p =>
    match String.fromUTF8? content with
    | none => { ending := .escaped .notText }
    | some text =>
      match Json.read text with
      | .error .tooManyDigits => { ending := .escaped .tooManyDigits }
      | .error .malformed =>
        { output := [.line ("[red]Invalid JSON in " ++ plainPath path ++ ":[/red] " ++
            readErrorText .malformed)]
          ending := .exit 1 }
      | .ok update =>
        if p.test update (.int me) then { output := [.line "[green]✓[/green] match"] }
        else { output := [.line "[yellow]✗[/yellow] no match"], ending := .exit 2 }

/-- Settings shown as a table. -/
def tabulate (s : Settings) : Result :=
  { output := [.table "chainbot settings" ["Key", "Value"]
      (s.fields.map fun (key, v) => [key, v.spaced])] }

/-- The settings of a file and an environment. -/
def loadFrom (env : Settings.Environment) : Entry → Except Escaped Settings
  | .directory => .error .directory
  | .missing => load none
  | .file content => load (some content)
where
  /-- The settings, without word of a rejected file. -/
  load (content : Option ByteArray) : Except Escaped Settings :=
    match Settings.load env content with
    | .ok (s, _) => .ok s
    | .error f => .error (.fault f)

/-- The result of a usage fault. -/
def refused (fault : UsageFault) : Result := { ending := .usage fault }

/-- The update file and the number of the bot, as the arguments of `match` give them. -/
def judgeArguments (p : Parsed) : Except UsageFault (String × Int) :=
  match p.value? "update" with
  | none => .error (.missingArgument "update")
  | some path =>
    match p.value? "me_id" with
    | none => .ok (path, 0)
    | some value =>
      match number? value with
      | some n => .ok (path, n)
      | none => .error (.badValue "me_id" value)

section

variable {m : Type → Type} [Monad m]

/-- A command run on its own arguments. -/
def runCommand (files : Files m) (env : Settings.Environment) (c : Subcommand) (p : Parsed) :
    m Result := do
  match c with
  | .check => pure (if p.rest.isEmpty then refused (.missingArgument "queries") else check p.rest)
  | .judge =>
    if p.rest.isEmpty then pure (refused (.missingArgument "query"))
    else
      match judgeArguments p with
      | .error fault => pure (refused fault)
      | .ok (path, me) =>
        match ← files.file path with
        | .file content => pure (judge p.rest path content me)
        | _ => pure (refused (.badValue "update" path))
  | .config =>
    match p.rest with
    | extra :: _ => pure (refused (.extraArgument extra))
    | [] =>
      let entry ← match p.value? "path" with
        | some path => files.file (plainPath path)
        | none => files.settings
      match loadFrom env entry with
      | .ok s => pure (tabulate s)
      | .error e => pure { ending := .escaped e }

/-- Whether a level of logging exists, in any case. -/
def levelFault? (name : String) : Option Escaped :=
  if (LogLevel.named? (Text.upper name)).isSome then none else some (.unknownLevel name)

/-- A command with its arguments, after the settings have been loaded. -/
def runNamed (files : Files m) (env : Settings.Environment) (level : Option String)
    (c : Subcommand) (args : List String) : m Result := do
  match loadFrom env (← files.settings) with
  | .error e => pure { ending := .escaped e }
  | .ok s =>
    let wanted := match level with
      | some name => if name.isEmpty then s.logLevel.name else name
      | none => s.logLevel.name
    match levelFault? wanted with
    | some e => pure { ending := .escaped e }
    | none =>
      match split c.options true args with
      | .error fault => pure (refused fault)
      | .ok p =>
        if p.options.any fun g => g.name == "help" then pure {}
        else runCommand files env c p

/-- The program run on its arguments. -/
def run (files : Files m) (env : Settings.Environment) (args : List String) : m Result := do
  match split mainOptions false args with
  | .error fault => pure (refused fault)
  | .ok p =>
    match p.options.find? fun g => g.name == "version" || g.name == "help" with
    | some g => pure (if g.name == "version" then { output := [.line versionText] } else {})
    | none =>
      match p.rest with
      | [] => pure (refused .missingCommand)
      | name :: args =>
        match Subcommand.named? name with
        | none => pure (refused (.unknownCommand name))
        | some c => runNamed files env (p.value? "log_level") c args

end

end UpdateDispatch.CommandLine
