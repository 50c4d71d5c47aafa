import MonkeyLang.Token.Scan
import MonkeyLang.Tree.Evaluation
import MonkeyLang.Tree.Parse

/-!
# Scripts

From source text to outcome. A script with any diagnostic is refused as a whole: nothing of it
is evaluated and the environment stays as it is.

* `Script.parse` keeps what could be read of a malformed source, `Script.parse?` refuses it.
* `Script.run` runs a script in an environment.
-/

namespace MonkeyLang

namespace Script

/-- Why a script has no value. -/
inductive Failure
  /-- The source is malformed. -/
  | malformed (diagnostics : List Diagnostic)
  /-- The evaluation stopped with a fault. -/
  | fault (fault : Fault)
deriving DecidableEq, Repr, Inhabited

/-- The wording of a failure. -/
def Failure.message : Failure → String
  | malformed ds => Diagnostic.report ds
  | fault f => f.message

/-- Parses a source text. -/
def parse (source : String) : Step (.start (Token.ofSource source)) (List Statement) :=
  MonkeyLang.parse (Token.ofSource source)

/-- The statements of a well-formed source, or the diagnostics of a malformed one. -/
def parse? (source : String) : Except (List Diagnostic) (List Statement) :=
  let step := parse source
  if step.diagnostics = [] then .ok step.value else .error step.diagnostics

/-- Runs a program in an environment. -/
def runProgram (program : List Statement) (env : Environment) :
    Except Failure Value × Environment :=
  let (outcome, env') := (Fragment.program program).run env
  (outcome.mapError .fault, env')

/-- Runs a source text in an environment. -/
def run (source : String) (env : Environment) : Except Failure Value × Environment :=
  match parse? source with
  | .ok program => runProgram program env
  | .error ds => (.error (.malformed ds), env)

section equations

variable {source : String} {env : Environment}

theorem parse?_of_wellFormed (h : (parse source).diagnostics = []) :
    parse? source = .ok (parse source).value :=
  if_pos h

theorem parse?_of_malformed (h : (parse source).diagnostics ≠ []) :
    parse? source = .error (parse source).diagnostics :=
  if_neg h

/-- A text without diagnostics runs as the program that it is parsed to. -/
theorem run_of_wellFormed (h : (parse source).diagnostics = []) :
    run source env = runProgram (parse source).value env := by
  rw [run, parse?_of_wellFormed h]

/-- A malformed text does not run and leaves the environment as it is. -/
theorem run_of_malformed (h : (parse source).diagnostics ≠ []) :
    run source env = (.error (.malformed (parse source).diagnostics), env) := by
  rw [run, parse?_of_malformed h]

end equations

end Script

end MonkeyLang
