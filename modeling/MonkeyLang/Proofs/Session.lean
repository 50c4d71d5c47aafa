import Mathlib.Data.List.DropRight
import MonkeyLang.Proofs.FrontEnds

/-!
# Sessions

What the shell says to a line depends on the line and on the environment, and that is determined
by some of the lines before it: the programs without diagnostics since the last reset.

* `Shell.environmentAfter` : the environment that lines leave, as said above; `Shell.follow` is
  what one line does to it (`Shell.environmentAfter_concat`).
* `Shell.Input.lines`, `Shell.sessionFailure?` : what the shell gets, and the failure of its reader
  that ends the session.
* `Shell.outputs` : what each line of a session prints.
* `Shell.respond_ofLine` : one line. `Shell.converse_eq` : all of them.
* `Shell.replies_insertIdx` : a line that changes nothing adds its own output to a session and
  leaves the rest of it as it is.
* `CommandLine.Surroundings.IsPiped` : the reader gives the lines of the standard input.
* `CommandLine.runShell_outputs` : whole sessions.
-/

namespace MonkeyLang

namespace Shell

/-! ## What a session says -/

/-- The lines that the shell gets, without what is interrupted. -/
def Input.lines : Input → List String
  | .line text rest => text :: rest.lines
  | .interrupted rest => rest.lines
  | .ended | .failed _ => []

/-- The message of the failure at the end of an input, if it does not end by itself. -/
def Input.failure? : Input → Option String
  | .line _ rest | .interrupted rest => rest.failure?
  | .ended => none
  | .failed message => some message

/-- The lines that are answered: those before the first one that quits. -/
def heard (lines : List String) : List String :=
  lines.takeWhile fun line => Text.trim line ≠ ":q"

/-- The message of the failure that ends a session: none if a line quits before it. -/
def sessionFailure? (input : Input) : Option String :=
  if heard input.lines = input.lines then input.failure? else none

theorem Input.lines_ofLines (lines : List String) : (Input.ofLines lines).lines = lines := by
  induction lines with
  | nil => rfl
  | cons line lines ih => exact congrArg (line :: ·) ih

theorem Input.failure?_ofLines (lines : List String) :
    (Input.ofLines lines).failure? = none := by
  induction lines with
  | nil => rfl
  | cons line lines ih => exact ih

/-- A session on given lines does not fail. -/
theorem sessionFailure?_ofLines (lines : List String) :
    sessionFailure? (.ofLines lines) = none := by
  rw [sessionFailure?, Input.failure?_ofLines, ite_self]

/-- Whether a text is a command of the shell and no program. -/
def isCommand (text : String) : Bool :=
  text = ":q" || text = ":env" || text = ":reset"

/-- The programs that matter to what comes after the lines: those without diagnostics that come
after the last reset. -/
def effective (lines : List String) : List String :=
  ((lines.map Text.trim).rtakeWhile fun text => text ≠ ":reset").filter fun text =>
    !isCommand text && (Script.parse text).diagnostics = []

/-- The environment that lines leave. -/
def environmentAfter (lines : List String) : Environment :=
  (effective lines).foldl (fun env text => (Script.run text env).2) .empty

/-- What a line prints, unless it quits. -/
def printed (showTree : Bool) (env : Environment) (line : String) : String :=
  let text := Text.trim line
  if text = "" ∨ text = ":reset" then
    ""
  else if text = ":env" then
    String.join (env.bindings.map fun (name, value) => name ++ " = " ++ value.text ++ "\n")
  else
    (answer showTree text env).1 ++ "\n"

/-- What each line of a session prints, in the environment that the lines before it leave. -/
def outputs (showTree : Bool) (lines : List String) : List String :=
  (heard lines).mapIdx fun i line =>
    printed showTree (environmentAfter ((heard lines).take i)) line

/-- Lines that leave every environment as it is: blank ones, listings and malformed programs. -/
def Inert (line : String) : Prop :=
  Text.trim line = "" ∨ Text.trim line = ":env" ∨
    (isCommand (Text.trim line) = false ∧ (Script.parse (Text.trim line)).diagnostics ≠ [])

/-! ## Environments -/

variable {showTree : Bool} {env : Environment} {line : String}

/-- What a line does to the environment. -/
def follow (env : Environment) (line : String) : Environment :=
  let text := Text.trim line
  if text = ":reset" then
    .empty
  else if !isCommand text && (Script.parse text).diagnostics = [] then
    (Script.run text env).2
  else
    env

theorem run_blank (env : Environment) : (Script.run "" env).2 = env := by
  have hValue : (Script.parse "").value = [] := by decide +kernel
  rw [Script.run_of_wellFormed (by decide +kernel), hValue]
  rfl

/-- One more line does to the environment what a line does: only a reset or a program without
diagnostics changes it. -/
theorem environmentAfter_concat (lines : List String) (line : String) :
    environmentAfter (lines ++ [line]) = follow (environmentAfter lines) line := by
  unfold environmentAfter effective follow
  rw [List.map_append, List.map_singleton, List.rtakeWhile_concat]
  by_cases hReset : Text.trim line = ":reset"
  · simp [hReset]
  · by_cases hEffective :
      (!isCommand (Text.trim line) && (Script.parse (Text.trim line)).diagnostics = []) = true
    · simp [hReset, hEffective, List.filter_append]
    · simp [hReset, hEffective, List.filter_append]

/-- The programs that matter leave the environment that all lines leave, one after the other. -/
theorem environmentAfter_eq_foldl (lines : List String) :
    environmentAfter lines = lines.foldl follow .empty := by
  induction lines using List.reverseRecOn with
  | nil => rfl
  | append_singleton lines line ih => rw [environmentAfter_concat, List.foldl_concat, ih]

theorem ne_reset_of_program (h : isCommand (Text.trim line) = false) :
    Text.trim line ≠ ":reset" := by
  intro hReset
  rw [hReset] at h
  cases h

/-- A malformed program has no effect when it runs, so it need not be told apart. -/
theorem follow_of_program (h : isCommand (Text.trim line) = false) (env : Environment) :
    follow env line = (Script.run (Text.trim line) env).2 := by
  by_cases hClean : (Script.parse (Text.trim line)).diagnostics = []
  · simp [follow, ne_reset_of_program h, h, hClean]
  · simp [follow, ne_reset_of_program h, hClean, Script.run_of_malformed hClean]

/-- Blank lines, listings and malformed programs leave the environment as it is. -/
theorem follow_of_inert (h : Inert line) (env : Environment) : follow env line = env := by
  rcases h with hBlank | hListing | ⟨hProgram, hMalformed⟩
  · rw [follow_of_program (by rw [hBlank]; rfl), hBlank, run_blank]
  · simp [follow, hListing, isCommand]
  · rw [follow_of_program hProgram, Script.run_of_malformed hMalformed]

theorem trim_ne_quit_of_inert (h : Inert line) : Text.trim line ≠ ":q" := by
  intro hQuit
  rw [Inert, hQuit] at h
  rcases h with hBlank | hListing | ⟨hProgram, -⟩
  · exact absurd hBlank (by decide)
  · exact absurd hListing (by decide)
  · cases hProgram

/-! ## Lines -/

/-- What the shell does with a line, unless it quits. -/
theorem respond_ofLine (hQuit : Text.trim line ≠ ":q") :
    respond showTree env (Request.ofLine line) = (printed showTree env line, follow env line) := by
  unfold Request.ofLine
  split
  · rename_i hBlank
    rw [follow_of_inert (.inl hBlank)]
    simp [respond, printed, hBlank]
  · rename_i hText
    exact absurd hText hQuit
  · rename_i hListing
    rw [follow_of_inert (.inr (.inl hListing))]
    simp [respond, printed, hListing, listingText]
  · rename_i hReset
    simp [respond, printed, follow, hReset]
  · rename_i hNotBlank _ hNotListing hNotReset
    have hBlank : Text.trim line ≠ "" := hNotBlank
    have hListing : Text.trim line ≠ ":env" := hNotListing
    have hReset : Text.trim line ≠ ":reset" := hNotReset
    have hProgram : isCommand (Text.trim line) = false := by
      simp [isCommand, hQuit, hListing, hReset]
    simp [respond, printed, hBlank, hListing, hReset, follow_of_program hProgram,
      environment_answer]

theorem ofLine_eq_quit_iff : Request.ofLine line = .quit ↔ Text.trim line = ":q" := by
  unfold Request.ofLine
  split <;> simp_all

/-! ## Sessions -/

/-- What each line prints, with one line after the other changing the environment. -/
def replies (showTree : Bool) (env : Environment) : List String → List String
  | [] => []
  | line :: lines =>
    if Text.trim line = ":q" then
      []
    else
      printed showTree env line :: replies showTree (follow env line) lines

theorem heard_cons_of_ne (hQuit : Text.trim line ≠ ":q") (lines : List String) :
    heard (line :: lines) = line :: heard lines := by
  simp [heard, hQuit]

/-- The shell prints what each line that it gets prints, in order. A failure ends the session
unless a line has quit before. -/
theorem converse_eq (input : Input) :
    converse showTree env input =
      (String.join (replies showTree env input.lines), sessionFailure? input) := by
  induction input generalizing env with
  | line line rest ih =>
    by_cases hQuit : Text.trim line = ":q"
    · have hHeard : heard (line :: rest.lines) ≠ line :: rest.lines := by simp [heard, hQuit]
      rw [converse, if_pos (ofLine_eq_quit_iff.mpr hQuit), Input.lines, replies, if_pos hQuit,
        sessionFailure?, Input.lines, if_neg hHeard]
      rfl
    · have hFailure : sessionFailure? (.line line rest) = sessionFailure? rest := by
        simp only [sessionFailure?, Input.lines, Input.failure?, heard_cons_of_ne hQuit,
          List.cons.injEq, true_and]
      rw [converse, if_neg (mt ofLine_eq_quit_iff.mp hQuit), respond_ofLine hQuit, hFailure,
        Input.lines, replies, if_neg hQuit, String.join_cons]
      simp only [ih]
  | interrupted rest ih => exact ih
  | ended => rfl
  | failed message => rfl

/-- What each line prints, with the environment that it sees told from the lines before it. -/
theorem replies_eq (lines : List String) :
    replies showTree env lines = (heard lines).mapIdx fun i line =>
      printed showTree (((heard lines).take i).foldl follow env) line := by
  induction lines generalizing env with
  | nil => rfl
  | cons line lines ih =>
    by_cases hQuit : Text.trim line = ":q"
    · simp [replies, heard, hQuit]
    · rw [replies, if_neg hQuit, heard_cons_of_ne hQuit, List.mapIdx_cons, ih]
      rfl

/-- What the lines print, told from the lines before each of them, is what they print one after
the other. -/
theorem outputs_eq (lines : List String) :
    outputs showTree lines = replies showTree .empty lines := by
  rw [replies_eq, outputs]
  simp only [environmentAfter_eq_foldl]

/-- A line that changes nothing adds its own output, and the other lines print what they print
without it. Behind a line that quits it adds nothing. -/
theorem replies_insertIdx (h : Inert line) (lines : List String) (i : Nat) :
    replies showTree env (lines.insertIdx i line) =
      (replies showTree env lines).insertIdx i
        (printed showTree ((lines.take i).foldl follow env) line) := by
  induction i generalizing env lines with
  | zero =>
    rw [List.insertIdx_zero, List.insertIdx_zero, replies, if_neg (trim_ne_quit_of_inert h),
      follow_of_inert h]
    rfl
  | succ i ih =>
    cases lines with
    | nil => rfl
    | cons first rest =>
      rw [List.insertIdx_succ_cons, replies, replies]
      by_cases hQuit : Text.trim first = ":q"
      · rw [if_pos hQuit, if_pos hQuit, List.insertIdx_succ_nil]
      · rw [if_neg hQuit, if_neg hQuit, List.insertIdx_succ_cons, ih]
        rfl

end Shell

namespace CommandLine

open Shell

/-- The standard input is a pipe: asking for lines gives those of the pipe one by one, and then the
end of input. -/
def Surroundings.IsPiped (s : Surroundings) : Prop :=
  s.input = .ofLines (Text.lines s.stdin)

/-- A session prints the greeting and then what each line prints up to the one that quits, in
the environment that the programs without diagnostics since the last reset leave. On a pipe it
succeeds; otherwise it fails where asking for a line fails before one quits. A listing shows
exactly what is bound, in the order of the names. A line that changes nothing can be put anywhere:
it adds its own output, and the other lines print what they print without it. -/
theorem runShell_outputs (settings : Settings) (s : Surroundings) :
    let stdout (lines : List String) : String :=
      "Hello " ++ s.addressee ++ "! This is the Monkey programming language!\n" ++
        "Feel free to type in commands (:q to quit)\n" ++
        String.join (outputs settings.showTree lines)
    (s.IsPiped → runShell settings s = ⟨0, stdout (Text.lines s.stdin), ""⟩) ∧
    (runShell settings s =
      match sessionFailure? s.input with
      | none => ⟨0, stdout s.input.lines, ""⟩
      | some message => ⟨1, stdout s.input.lines, "ReadlineError: " ++ message ++ "\n"⟩) ∧
    (∀ env : Environment,
      (env.bindings.Pairwise fun a b => Environment.bytes a.1 < Environment.bytes b.1) ∧
        ∀ name value, (name, value) ∈ env.bindings ↔ env.get? name = some value) ∧
    ∀ (showTree : Bool) (lines : List String) (i : Nat) (line : String), Inert line →
      outputs showTree (lines.insertIdx i line) =
        (outputs showTree lines).insertIdx i
          (printed showTree (environmentAfter (lines.take i)) line) := by
  intro stdout
  have hRun : runShell settings s =
      match sessionFailure? s.input with
      | none => ⟨0, stdout s.input.lines, ""⟩
      | some message => ⟨1, stdout s.input.lines, "ReadlineError: " ++ message ++ "\n"⟩ := by
    rw [runShell, transcript, converse_eq, ← outputs_eq]
    cases sessionFailure? s.input with
    | none => rfl
    | some message => rfl
  refine ⟨fun hPiped => ?_, hRun, fun env => ⟨env.sorted, fun _ _ => ?_⟩, ?_⟩
  · rw [hRun, hPiped, sessionFailure?_ofLines, Input.lines_ofLines]
  · exact Environment.mem_bindings_iff
  · intro showTree lines i line hInert
    rw [outputs_eq, outputs_eq, environmentAfter_eq_foldl, replies_insertIdx hInert]

/-- A session on a pipe, with a reset, a listing and a line that is not answered; the same lines
with a malformed one among them; and a session that an interruption does not end, but a failure
does. -/
theorem runShell_outputs_sessions :
    let piped : Surroundings :=
      { user := none, username := some "ann", fileBytes? := fun _ => none
        stdin := "let x = 1;\n:reset\nlet y = 2\n:env\r\n:q\ny" }
    let broken : Surroundings :=
      { piped with input := .line "let x = 1" (.interrupted (.line ":env" (.failed "broken"))) }
    let lines := ["let x = 1;", ":reset", "let y = 2", ":env", ":q", "y"]
    let greeting := "Hello ann! This is the Monkey programming language!\n" ++
      "Feel free to type in commands (:q to quit)\n"
    piped.IsPiped ∧ Text.lines piped.stdin = lines ∧
      runShell .standard piped = ⟨0, greeting ++ "null\nnull\ny = 2\n", ""⟩ ∧
      runShell .standard broken = ⟨1, greeting ++ "null\nx = 1\n", "ReadlineError: broken\n"⟩ ∧
      ("y", .integer 2) ∈ (environmentAfter lines).bindings ∧
      Inert " 5 + " ∧ outputs false lines = ["null\n", "", "null\n", "y = 2\n"] ∧
      outputs false (lines.insertIdx 3 " 5 + ") = ["null\n", "", "null\n",
        "Woops! We ran into some monkey business here!\n parser errors:\n\t" ++
          "no prefix parse function for EOF found\n", "y = 2\n"] := by
  intro piped broken lines greeting
  have hInert : Inert " 5 + " := by
    refine .inr (.inr ⟨?_, ?_⟩)
    · decide +kernel
    · decide +kernel
  have hLines : Text.lines piped.stdin = lines := by decide +kernel
  have hOutputs : outputs false lines = ["null\n", "", "null\n", "y = 2\n"] := by
    decide +kernel
  obtain ⟨hPiped, -, hListing, hInsert⟩ := runShell_outputs .standard piped
  obtain ⟨-, hBroken, -⟩ := runShell_outputs .standard broken
  refine ⟨rfl, hLines, (hPiped rfl).trans ?_, hBroken.trans ?_,
    ((hListing _).2 _ _).mpr ?_, hInert, hOutputs, (hInsert false lines 3 " 5 + " hInert).trans ?_⟩
  · rw [hLines]
    decide +kernel
  · decide +kernel
  · decide +kernel
  · rw [hOutputs]
    decide +kernel

end CommandLine

end MonkeyLang
