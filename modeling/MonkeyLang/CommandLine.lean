import MonkeyLang.CommandLine.Arguments
import MonkeyLang.Shell

/-!
# The command line program

With contents the program runs them, or the file that they name, as one script. Without
contents it is a shell on its standard input.

* `CommandLine.runScript` and `CommandLine.runShell` are the two ways to run.
* `CommandLine.run` is the whole program, from arguments and surroundings to what it prints.
-/

namespace MonkeyLang.CommandLine

/-- What a run prints and the code it ends with. -/
structure Outcome where
  exitCode : Nat
  stdout : String
  stderr : String
deriving DecidableEq, Repr, Inhabited

/-- What a run finds around it: the two variables that may name the user, its standard input,
the files it can read, and what it gets when it asks for lines. Of a pipe these are its lines. -/
structure Surroundings where
  user : Option String
  username : Option String
  stdin : String
  fileBytes? : String → Option ByteArray
  input : Shell.Input := .ofLines (Text.lines stdin)

namespace Surroundings

/-- How the user is addressed. -/
def addressee (s : Surroundings) : String :=
  (s.user <|> s.username).getD "there"

/-- The text in a file, if it can be read and is UTF-8. -/
def readText? (s : Surroundings) (name : String) : Option String :=
  (s.fileBytes? name).bind String.fromUTF8?

end Surroundings

/-- What `--version` prints. -/
def versionText : String :=
  "monkey 0.1.0\n"

/-- What `--help` prints. -/
def helpText : String :=
  "Usage: monkey [OPTIONS] [CONTENTS]\n\n" ++
    "Arguments:\n" ++
    "  [CONTENTS]  A program, or the file that holds it\n\n" ++
    "Options:\n" ++
    "  -f, --file        Read the program from a file\n" ++
    "  -d, --dump-ast    Show the canonical text of each program\n" ++
    "      --no-history  Keep no history\n" ++
    "  -h, --help        Print help\n" ++
    "  -V, --version     Print version\n"

/-- What is said about arguments that break the rules. -/
def usageText : String :=
  "error: invalid arguments\n\nUsage: monkey [OPTIONS] [CONTENTS]\n"

/-- What is said about a file that cannot be read. -/
def unreadableText (name : String) : String :=
  "Failed to read the input file '" ++ name ++ "'. Perhaps this file does not exist?\n"

/-- The settings that a command line chooses. -/
def Arguments.settings (a : Arguments) : Settings :=
  let s := Settings.standard.withTree a.dumpAst
  if a.noHistory then s.withoutHistory else s

/-- Runs a source text as a script. Values go to the standard output; diagnostics and faults go
to the standard error, and the run has failed. -/
def runScript (showTree : Bool) (source : String) : Outcome :=
  match Script.parse? source with
  | .error ds => ⟨1, "", String.join (ds.map fun d => d.message ++ "\n")⟩
  | .ok program =>
    let tree := if showTree then Shell.treeLine program else ""
    let outcome := ((Fragment.program program).run .empty).1
    let text := Shell.outcomeText outcome ++ "\n"
    match outcome with
    | .ok _ => ⟨0, tree ++ text, ""⟩
    | .error _ => ⟨1, tree, text⟩

/-- What is said when no more lines can be asked for. -/
def unaskableText (message : String) : String :=
  "ReadlineError: " ++ message ++ "\n"

/-- Runs the shell. A session fails only where asking for a line does. -/
def runShell (settings : Settings) (s : Surroundings) : Outcome :=
  match Shell.transcript settings s.addressee s.input with
  | (text, none) => ⟨0, text, ""⟩
  | (text, some message) => ⟨1, text, unaskableText message⟩

/-- Runs with given arguments. -/
def runWith (a : Arguments) (s : Surroundings) : Outcome :=
  match a.contents with
  | none => runShell a.settings s
  | some contents =>
    if a.file then
      match s.readText? contents with
      | some source => runScript a.settings.showTree source
      | none => ⟨1, "", unreadableText contents⟩
    else
      runScript a.settings.showTree contents

/-- The whole program. -/
def run (args : List String) (s : Surroundings) : Outcome :=
  match Arguments.read args with
  | .ok a => runWith a s
  | .error .usage => ⟨2, "", usageText⟩
  | .error .version => ⟨0, versionText, ""⟩
  | .error .help => ⟨0, helpText, ""⟩

end MonkeyLang.CommandLine
