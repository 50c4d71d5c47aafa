import MonkeyLang.CommandLine

/-!
# The executable

Reads what a run finds around it and prints what the run yields. The shell answers each line as
soon as it is read. A prompt is printed, and a history kept, only where someone types.
-/

namespace MonkeyLang.CommandLine

/-- The bytes of a file, if it can be read. -/
def readBytes? (name : String) : IO (Option ByteArray) := do
  try
    return some (← IO.FS.readBinFile name)
  catch _ =>
    return none

/-- Adds a typed line to the history file, if one is kept and there is a home for it. -/
def remember (settings : Settings) (line : String) : IO Unit := do
  let some name := settings.historyFile | return
  let some home ← IO.getEnv "HOME" | return
  try
    IO.FS.withFile (home ++ "/" ++ name) .append fun handle => handle.putStrLn line
  catch _ =>
    return

/-- Answers the lines of the standard input until one quits or the input ends. -/
partial def converseLoop (settings : Settings) (env : Environment) : IO Unit := do
  let stdin ← IO.getStdin
  let stdout ← IO.getStdout
  let typed ← stdin.isTty
  if typed then
    stdout.putStr settings.prompt
    stdout.flush
  let line ← stdin.getLine
  if line.isEmpty then
    return
  let request := Shell.Request.ofLine line
  if typed && request ≠ .nothing then
    remember settings (Text.trim line)
  if request = .quit then
    return
  let (text, env') := Shell.respond settings.showTree env request
  stdout.putStr text
  stdout.flush
  converseLoop settings env'

/-- Prints an outcome and ends with its code. -/
def finish (outcome : Outcome) : IO UInt32 := do
  (← IO.getStdout).putStr outcome.stdout
  (← IO.getStderr).putStr outcome.stderr
  return outcome.exitCode.toUInt32

/-- Runs with the arguments of the process. -/
def execute (args : List String) : IO UInt32 := do
  let arguments := Arguments.read args
  let bytes ← match arguments with
    | .ok { file := true, contents := some name, .. } => readBytes? name
    | _ => pure none
  let surroundings : Surroundings :=
    { user := ← IO.getEnv "USER"
      username := ← IO.getEnv "USERNAME"
      stdin := ""
      fileBytes? := fun _ => bytes }
  let outcome := run args surroundings
  let code ← finish outcome
  match arguments with
  | .ok a => if a.contents.isNone then converseLoop a.settings .empty
  | .error _ => pure ()
  return code

end MonkeyLang.CommandLine

/-- Runs the program. -/
def main (args : List String) : IO UInt32 :=
  MonkeyLang.CommandLine.execute args
