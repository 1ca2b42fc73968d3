import UpdateDispatch.CommandLine.Run

/-!
# The program

The command line on real files: the settings are those in the home directory, other files are read
where their paths lead, and the environment is that of the process.
-/

namespace UpdateDispatch.Main

/-- What stands under a path. -/
def entry (path : String) : IO CommandLine.Entry := do
  try
    .file <$> IO.FS.readBinFile path
  catch _ =>
    try
      let _ ← IO.FS.Handle.mk path .read
      pure .directory
    catch _ => pure .missing

/-- The files of the machine. -/
def files : CommandLine.Files IO where
  settings := do entry ((← IO.getEnv "HOME").getD "" ++ "/.chainbot/config.json")
  file := entry

/-- The variable that one entry of the environment sets. -/
def assignment? (text : String) : Option (String × String) :=
  match text.toList.span (· != '=') with
  | (name, _ :: value) => some (String.ofList name, String.ofList value)
  | _ => none

/-- The environment of the process. -/
def environment : IO Settings.Environment := do
  try
    let text ← IO.FS.readFile "/proc/self/environ"
    pure ((text.splitOn "\x00").filterMap assignment?)
  catch _ => pure []

/-- The cells of a row, in columns. -/
def rowText (cells : List String) : String := Filter.joined " | " cells

/-- What the program prints, as lines. -/
def text : CommandLine.Printed → String
  | .line s => s
  | .table title columns rows =>
    Filter.joined "\n" (title :: rowText columns :: rows.map rowText)

end UpdateDispatch.Main

open UpdateDispatch in
/-- The program on the arguments of the process. -/
def main (args : List String) : IO UInt32 := do
  let r ← CommandLine.run Main.files (← Main.environment) args
  for p in r.output do
    IO.println (Main.text p)
  match r.ending with
  | .escaped e => IO.eprintln e.name
  | _ => pure ()
  pure r.exitCode.toUInt32
