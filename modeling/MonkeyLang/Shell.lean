import MonkeyLang.Script
import MonkeyLang.Settings
import MonkeyLang.Text

/-!
# The shell

The shell asks for lines. A line is a command of the shell or else a program, which runs in the
environment that the lines before it left.

* `Shell.answer` is what the shell says to a program.
* `Shell.Input` is what the shell gets for an answer when it asks for lines.
* `Shell.respond` is what it does with a line, `Shell.converse` with all that it gets.
-/

namespace MonkeyLang.Shell

/-- What stands above the diagnostics of a malformed program. -/
def complaint : String :=
  "Woops! We ran into some monkey business here!\n parser errors:"

/-- How a canonical text is shown. -/
def treeLine (program : List Statement) : String :=
  "AST: " ++ Statement.textAll program ++ "\n"

/-- How an outcome is shown. -/
def outcomeText : Except Fault Value → String
  | .ok value => value.text
  | .error fault => "ERROR: " ++ fault.message

/-- What the shell says to a program, and the environment that it leaves. A malformed program
gets its diagnostics for an answer and leaves everything as it is. -/
def answer (showTree : Bool) (source : String) (env : Environment) : String × Environment :=
  match Script.parse? source with
  | .error ds => (complaint ++ String.join (ds.map fun d => "\n\t" ++ d.message), env)
  | .ok program =>
    let (outcome, env') := (Fragment.program program).run env
    ((if showTree then treeLine program else "") ++ outcomeText outcome, env')

/-! ## Lines -/

/-- What a line asks for. -/
inductive Request
  | nothing
  | quit
  | listing
  | reset
  | program (source : String)
deriving DecidableEq, Repr, Inhabited

/-- What a line asks for. White space at its ends does not matter. -/
def Request.ofLine (line : String) : Request :=
  match Text.trim line with
  | "" => nothing
  | ":q" => quit
  | ":env" => listing
  | ":reset" => reset
  | source => program source

/-- All bindings, one on each line. -/
def listingText (env : Environment) : String :=
  String.join (env.bindings.map fun (name, value) => name ++ " = " ++ value.text ++ "\n")

/-- What the shell prints for a request, and the environment after it. -/
def respond (showTree : Bool) (env : Environment) : Request → String × Environment
  | .nothing | .quit => ("", env)
  | .listing => (listingText env, env)
  | .reset => ("", .empty)
  | .program source =>
    let (text, env') := answer showTree source env
    (text ++ "\n", env')

/-! ## Sessions -/

/-- What the shell gets when it asks for lines, one request after the other: a line, an
interruption, which gives up the line that was being typed, the end of input, or a failure. The
last two end the session. -/
inductive Input
  | line (text : String) (rest : Input)
  | interrupted (rest : Input)
  | ended
  | failed (message : String)
deriving DecidableEq, Repr, Inhabited

/-- Lines one after the other, and then the end of input. -/
def Input.ofLines : List String → Input
  | [] => ended
  | text :: texts => line text (ofLines texts)

/-- What the shell prints for its input, up to a line that quits, and the message of the failure
that ends the session, if one does. -/
def converse (showTree : Bool) (env : Environment) : Input → String × Option String
  | .line line rest =>
    let request := Request.ofLine line
    if request = .quit then
      ("", none)
    else
      let (text, env') := respond showTree env request
      let (more, failure?) := converse showTree env' rest
      (text ++ more, failure?)
  | .interrupted rest => converse showTree env rest
  | .ended => ("", none)
  | .failed message => ("", some message)

/-- The first words of a session. -/
def greeting (user : String) : String :=
  "Hello " ++ user ++ "! This is the Monkey programming language!\n" ++
    "Feel free to type in commands (:q to quit)\n"

/-- All that the shell prints in a session, and the message of the failure that ends it. -/
def transcript (settings : Settings) (user : String) (input : Input) : String × Option String :=
  let (text, failure?) := converse settings.showTree .empty input
  (greeting user ++ text, failure?)

end MonkeyLang.Shell
