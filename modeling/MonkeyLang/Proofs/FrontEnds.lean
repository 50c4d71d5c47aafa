import MonkeyLang.CommandLine

/-!
# The front ends agree

The shell and the command line each parse, refuse, evaluate and print by themselves. What they
show of a source text depends on nothing but what `Script.run` comes to.

* `Shell.answer_of_wellFormed`, `Shell.answer_of_malformed` : what the shell says to a program.
* `CommandLine.runScript_of_wellFormed`, `CommandLine.runScript_of_malformed` : what a run of it
  as a script prints.
* `answer_runScript` : both of them, for each outcome of `Script.run`.
-/

namespace MonkeyLang

/-- Lines, each of them ended, are lines with breaks between them and one at the end. -/
theorem Diagnostic.join_lines {ds : List Diagnostic} (h : ds ≠ []) :
    String.join (ds.map fun d => d.message ++ "\n") = report ds ++ "\n" := by
  induction ds with
  | nil => exact absurd rfl h
  | cons d ds ih =>
    by_cases hRest : ds = []
    · subst hRest
      simp [report, String.join_cons]
    · have hReport : report (d :: ds) = d.message ++ "\n" ++ report ds := by
        rw [report, List.map_cons, String.intercalate_cons_of_ne_nil (by simpa using hRest), report]
      rw [List.map_cons, String.join_cons, ih hRest, hReport, String.append_assoc,
        String.append_assoc, String.append_assoc]

namespace Script

variable {source : String}

/-- The outcome of a well-formed source is that of its statements. -/
theorem run_eq_of_wellFormed (h : (parse source).diagnostics = []) (env : Environment) :
    run source env =
      (((Fragment.program (parse source).value).run env).1.mapError .fault,
        ((Fragment.program (parse source).value).run env).2) :=
  run_of_wellFormed h

theorem diagnostics_of_malformed {env : Environment} {ds : List Diagnostic}
    (h : (run source env).1 = .error (.malformed ds)) :
    (run source env).2 = env ∧ ds = (parse source).diagnostics := by
  by_cases hClean : (parse source).diagnostics = []
  · rw [run_eq_of_wellFormed hClean] at h
    cases hOutcome : ((Fragment.program (parse source).value).run env).1 with
    | ok v =>
      rw [hOutcome] at h
      cases h
    | error fault =>
      rw [hOutcome] at h
      cases h
  · rw [run_of_malformed hClean] at h ⊢
    cases h
    exact ⟨rfl, rfl⟩

end Script

namespace Shell

variable {source : String}

/-- A program without diagnostics is answered by its tree, if that is asked for, and its outcome. -/
theorem answer_of_wellFormed (h : (Script.parse source).diagnostics = []) (showTree : Bool)
    (env : Environment) :
    answer showTree source env =
      ((if showTree then treeLine (Script.parse source).value else "") ++
        outcomeText ((Fragment.program (Script.parse source).value).run env).1,
        ((Fragment.program (Script.parse source).value).run env).2) := by
  rw [answer, Script.parse?_of_wellFormed h]

/-- A malformed program is answered by its diagnostics and changes nothing. -/
theorem answer_of_malformed (h : (Script.parse source).diagnostics ≠ []) (showTree : Bool)
    (env : Environment) :
    answer showTree source env =
      (complaint ++
        String.join ((Script.parse source).diagnostics.map fun d => "\n\t" ++ d.message), env) := by
  rw [answer, Script.parse?_of_malformed h]

/-- The shell leaves the environment that running the program leaves. -/
theorem environment_answer (showTree : Bool) (source : String) (env : Environment) :
    (answer showTree source env).2 = (Script.run source env).2 := by
  by_cases h : (Script.parse source).diagnostics = []
  · rw [answer_of_wellFormed h, Script.run_eq_of_wellFormed h]
  · rw [answer_of_malformed h, Script.run_of_malformed h]

end Shell

namespace CommandLine

variable {source : String}

/-- A script without diagnostics runs in an empty environment. -/
theorem runScript_of_wellFormed (h : (Script.parse source).diagnostics = []) (showTree : Bool) :
    runScript showTree source =
      let tree := if showTree then Shell.treeLine (Script.parse source).value else ""
      match ((Fragment.program (Script.parse source).value).run .empty).1 with
      | .ok value => ⟨0, tree ++ (value.text ++ "\n"), ""⟩
      | .error fault => ⟨1, tree, "ERROR: " ++ fault.message ++ "\n"⟩ := by
  rw [runScript, Script.parse?_of_wellFormed h]
  cases hOutcome : ((Fragment.program (Script.parse source).value).run .empty).1 with
  | ok value => simp only [hOutcome, Shell.outcomeText]
  | error fault => simp only [hOutcome, Shell.outcomeText]

/-- A malformed script does not run: its diagnostics are all that is said. -/
theorem runScript_of_malformed (h : (Script.parse source).diagnostics ≠ []) (showTree : Bool) :
    runScript showTree source =
      ⟨1, "", Diagnostic.report (Script.parse source).diagnostics ++ "\n"⟩ := by
  rw [runScript, Script.parse?_of_malformed h, ← Diagnostic.join_lines h]

/-- The source text that arguments choose: the contents, or what is in the file they name. -/
def Surroundings.source? (s : Surroundings) (a : Arguments) : Option String :=
  a.contents.bind fun contents => if a.file then s.readText? contents else some contents

theorem Arguments.showTree_settings (a : Arguments) : a.settings.showTree = a.dumpAst := by
  unfold Arguments.settings
  split <;> rfl

/-- Where there is a source, it is run as a script. -/
theorem runWith_of_source {a : Arguments} {s : Surroundings} (h : s.source? a = some source) :
    runWith a s = runScript a.dumpAst source := by
  obtain ⟨contents, hContents, hText⟩ := Option.bind_eq_some_iff.mp h
  rw [runWith, hContents, Arguments.showTree_settings]
  by_cases hFile : a.file = true
  · rw [if_pos hFile] at hText
    exact (if_pos hFile).trans (by rw [hText])
  · rw [if_neg hFile] at hText
    cases hText
    exact if_neg hFile

end CommandLine

/-! ## Both front ends -/

/-- What the shell says to a program and what a run of it as a script prints, for each outcome
of the program. The shell leaves the environment that the program leaves, which is the old one
if the program is malformed. -/
theorem answer_runScript (source : String) (showTree : Bool) :
    let tree :=
      if showTree then "AST: " ++ Statement.textAll (Script.parse source).value ++ "\n" else ""
    (∀ env, (Shell.answer showTree source env).2 = (Script.run source env).2) ∧
    (∀ env, (Shell.answer showTree source env).1 =
      match (Script.run source env).1 with
      | .ok value => tree ++ value.text
      | .error (.fault fault) => tree ++ ("ERROR: " ++ fault.message)
      | .error (.malformed ds) =>
        "Woops! We ran into some monkey business here!\n parser errors:" ++
          String.join (ds.map fun d => "\n\t" ++ d.message)) ∧
    (∀ env ds, (Script.run source env).1 = .error (.malformed ds) →
      (Script.run source env).2 = env ∧ ds = (Script.parse source).diagnostics) ∧
    (CommandLine.runScript showTree source =
      match (Script.run source .empty).1 with
      | .ok value => ⟨0, tree ++ (value.text ++ "\n"), ""⟩
      | .error (.fault fault) => ⟨1, tree, "ERROR: " ++ fault.message ++ "\n"⟩
      | .error (.malformed ds) => ⟨1, "", Diagnostic.report ds ++ "\n"⟩) ∧
    ∀ (a : CommandLine.Arguments) (s : CommandLine.Surroundings),
      s.source? a = some source → a.dumpAst = showTree →
      CommandLine.runWith a s = CommandLine.runScript showTree source := by
  intro tree
  refine ⟨Shell.environment_answer showTree source, ?_, fun _ _ => Script.diagnostics_of_malformed,
    ?_, ?_⟩
  · intro env
    by_cases h : (Script.parse source).diagnostics = []
    · rw [Shell.answer_of_wellFormed h, Script.run_eq_of_wellFormed h]
      cases ((Fragment.program (Script.parse source).value).run env).1 with
      | ok value => rfl
      | error fault => rfl
    · rw [Shell.answer_of_malformed h, Script.run_of_malformed h]
      rfl
  · by_cases h : (Script.parse source).diagnostics = []
    · rw [CommandLine.runScript_of_wellFormed h, Script.run_eq_of_wellFormed h]
      cases ((Fragment.program (Script.parse source).value).run .empty).1 with
      | ok value => rfl
      | error fault => rfl
    · rw [CommandLine.runScript_of_malformed h, Script.run_of_malformed h]
  · rintro a s hSource rfl
    exact CommandLine.runWith_of_source hSource

/-- A value, a fault and a malformed program. What a program binds before its fault stays bound; of
`5 +` nothing is shown but what is wrong with it. -/
theorem answer_runScript_outcomes :
    let a (contents : String) : CommandLine.Arguments :=
      { dumpAst := true, contents := some contents }
    let s : CommandLine.Surroundings :=
      { user := none, username := none, stdin := "", fileBytes? := fun _ => none }
    let env := Environment.empty.set "x" (.integer 7)
    (Shell.answer true "x * 6" env).1 = "AST: (x * 6)\n42" ∧
      CommandLine.runWith (a "7 * 6") s = ⟨0, "AST: (7 * 6)\n42\n", ""⟩ ∧
    Shell.answer false "let y = x; y / 0" env =
        ("ERROR: division by zero: 7 / 0", env.set "y" (.integer 7)) ∧
      CommandLine.runWith (a "7 / 0") s =
        ⟨1, "AST: (7 / 0)\n", "ERROR: division by zero: 7 / 0\n"⟩ ∧
    (Script.run "5 +" env).1 = .error (.malformed [.noOperand .endOfInput]) ∧
      s.source? (a "5 +") = some "5 +" ∧
      Shell.answer true "5 +" env =
        ("Woops! We ran into some monkey business here!\n parser errors:\n\t" ++
          "no prefix parse function for EOF found", env) ∧
      CommandLine.runWith (a "5 +") s = ⟨1, "", "no prefix parse function for EOF found\n"⟩ := by
  intro a s env
  have hRun : ∀ contents, CommandLine.runWith (a contents) s =
      CommandLine.runScript true contents := fun contents =>
    (answer_runScript contents true).2.2.2.2 (a contents) s rfl rfl
  obtain ⟨-, hValue, -⟩ := answer_runScript "x * 6" true
  obtain ⟨-, -, -, hProduct, -⟩ := answer_runScript "7 * 6" true
  obtain ⟨hKept, hFault, -⟩ := answer_runScript "let y = x; y / 0" false
  obtain ⟨-, -, -, hQuotient, -⟩ := answer_runScript "7 / 0" true
  obtain ⟨hEnvironment, hText, hMalformed, hScript, -⟩ := answer_runScript "5 +" true
  have hDiagnostics : (Script.parse "5 +").diagnostics = [.noOperand .endOfInput] := by
    decide +kernel
  have hOutcome : (Script.run "5 +" env).1 = .error (.malformed [.noOperand .endOfInput]) := by
    rw [Script.run_of_malformed (by simp [hDiagnostics]), hDiagnostics]
  have hUnchanged := (hEnvironment env).trans (hMalformed env _ hOutcome).1
  refine ⟨(hValue env).trans ?_, (hRun _).trans (hProduct.trans ?_),
    Prod.ext ((hFault env).trans ?_) ((hKept env).trans ?_), (hRun _).trans (hQuotient.trans ?_),
    hOutcome, rfl, Prod.ext ((hText env).trans ?_) hUnchanged, (hRun _).trans (hScript.trans ?_)⟩
  all_goals decide +kernel

end MonkeyLang
