import MonkeyLang.Proofs.Confinement
import MonkeyLang.Proofs.Evaluation.Returns
import MonkeyLang.Proofs.Lexing.LineBreak
import MonkeyLang.Proofs.Reading.Completeness
import MonkeyLang.Proofs.Reading.Soundness
import MonkeyLang.Script

/-!
# Scripts in pieces

A script can be run piece by piece, each piece in the environment that the one before it left.
A piece has to end with a semicolon: the operator that the next piece may start with would
otherwise go on with its last expression. And no `return` may stand in it, which would end a
script but not the pieces after it.

* `Written.append_statements` : statements behind a semicolon are read by themselves.
* `parse_append_of_wellFormed` : what is read in two pieces.
* `Script.run_newline` : running two pieces of a script.
-/

namespace MonkeyLang

/-! ## Where semicolons stand -/

theorem not_endsStatement_nil : ¬ EndsStatement [] := by
  rintro ⟨last, hLast, -⟩
  cases hLast

@[simp] theorem endsStatement_singleton {t : Token} :
    EndsStatement [t] ↔ t.kind = .semicolon := by
  simp [EndsStatement]

@[simp] theorem endsStatement_append_cons {ts us : List Token} {t : Token} :
    EndsStatement (ts ++ t :: us) ↔ EndsStatement (t :: us) := by
  simp [EndsStatement]

theorem not_endsStatement_cons {t : Token} {k : Token.Kind} {ts : List Token} (h : t.kind = k)
    (hKind : k ≠ .semicolon) (h' : ¬ EndsStatement ts) : ¬ EndsStatement (t :: ts) := by
  cases ts with
  | nil => rwa [endsStatement_singleton, h]
  | cons u us => exact fun hEnds => h' (hEnds.of_cons (List.cons_ne_nil u us))

theorem not_endsStatement_append {ts us : List Token} (h : ¬ EndsStatement ts)
    (h' : ¬ EndsStatement us) : ¬ EndsStatement (ts ++ us) := by
  cases us with
  | nil => rwa [List.append_nil]
  | cons u us => rwa [endsStatement_append_cons]

theorem not_endsStatement_concat {r : Token} {k : Token.Kind} (h : r.kind = k)
    (hKind : k ≠ .semicolon) (ts : List Token) : ¬ EndsStatement (ts ++ [r]) := by
  rwa [endsStatement_append_cons, endsStatement_singleton, h]

/-- Semicolons belong to lists of statements. No other phrase ends with one. -/
def Phrase.Open : Phrase → List Token → Prop
  | .statements _, _ => True
  | _, ts => ¬ EndsStatement ts

/-- No phrase but a list of statements ends with a semicolon, by induction over how it
is written. -/
theorem Written.isOpen {p : Phrase} {ts : List Token} (h : Written p ts) : p.Open ts := by
  induction h with
  | identifier h | integer h | trueWord h | falseWord h =>
    exact not_endsStatement_cons h (by decide) not_endsStatement_nil
  | unary op h _ ih => exact not_endsStatement_cons h (by cases op <;> decide) ih
  | group _ hRight => exact not_endsStatement_concat hRight (by decide) (_ :: _)
  | conditional hIf hLeft hRight _ _ _ ihTest ihConsequence ihAlternative =>
    have hBlocks := not_endsStatement_append ihConsequence ihAlternative
    have hBehindTest := not_endsStatement_cons hRight (by decide) hBlocks
    exact not_endsStatement_cons hIf (by decide)
      (not_endsStatement_cons hLeft (by decide) (not_endsStatement_append ihTest hBehindTest))
  | noLink | noAlternative => exact not_endsStatement_nil
  | link op h _ _ ihOperand ihRest =>
    exact not_endsStatement_cons h (by cases op <;> decide)
      (not_endsStatement_append ihOperand ihRest)
  | chain _ _ ihOperand ihRest => exact not_endsStatement_append ihOperand ihRest
  | block _ hRight => exact not_endsStatement_concat hRight (by decide) (_ :: _)
  | alternative h _ ih => exact not_endsStatement_cons h (by decide) ih
  | binding hLet hName hAssign _ ih =>
    exact not_endsStatement_cons hLet (by decide)
      (not_endsStatement_cons hName (by decide) (not_endsStatement_cons hAssign (by decide) ih))
  | returning hReturn _ ih => exact not_endsStatement_cons hReturn (by decide) ih
  | expression _ ih => exact ih
  | noStatement | closed | juxtaposed => trivial

/-! ## Statements in pieces -/

/-- Behind a semicolon statements are read as if nothing stood before them. -/
theorem Written.append_statements {ss us : List Statement} {ts vs : List Token}
    (h : Written (.statements ss) ts) (hEnds : ts = [] ∨ EndsStatement ts)
    (h' : Written (.statements us) vs) : Written (.statements (ss ++ us)) (ts ++ vs) := by
  induction ss generalizing ts with
  | nil =>
    cases h
    exact h'
  | cons s ss ih =>
    cases h with
    | @closed t _ _ ts ts' hSemicolon head tail =>
      have hTail : ts' = [] ∨ EndsStatement ts' := by
        by_cases hNil : ts' = []
        · exact .inl hNil
        · have hClosed := hEnds.resolve_left (by simp)
          exact .inr ((endsStatement_append_cons.mp hClosed).of_cons hNil)
      rw [List.append_assoc, List.cons_append]
      exact .closed hSemicolon head (ih tail hTail)
    | @juxtaposed _ _ ts ts' hNext head tail =>
      have hHead : ¬ EndsStatement ts := head.isOpen
      have hWhole : EndsStatement (ts ++ ts') :=
        hEnds.resolve_left (List.append_ne_nil_of_left_ne_nil
          (ne_nil_of_startsStatement head.starts) ts')
      -- The last token is a semicolon, so it is not the one that the first statement ends with.
      obtain ⟨u, us', rfl⟩ : ∃ u us', ts' = u :: us' := by
        refine List.exists_cons_of_ne_nil ?_
        rintro rfl
        rw [List.append_nil] at hWhole
        exact hHead hWhole
      rw [List.append_assoc]
      exact .juxtaposed hNext head (ih tail (.inr (endsStatement_append_cons.mp hWhole)))

/-- Two well-formed texts in a row, the first of which ends with a semicolon, are well-formed,
and their statements are those of the first and then those of the second. -/
theorem parse_append_of_wellFormed {front following : List Token}
    (hFront : ∀ t ∈ front, t.kind ≠ .endOfInput)
    (hFollowing : ∀ t ∈ following, t.kind ≠ .endOfInput)
    (hClean : (parse front).diagnostics = []) (hEnds : EndsStatement front)
    (hCleanFollowing : (parse following).diagnostics = []) :
    (parse (front ++ following)).value = (parse front).value ++ (parse following).value ∧
      (parse (front ++ following)).diagnostics = [] := by
  have hWritten := written_parse_of_wellFormed hFront hClean
  have hWritten' := written_parse_of_wellFormed hFollowing hCleanFollowing
  exact program_of_written (c := .start (front ++ following))
    (hWritten.append_statements (.inr hEnds) hWritten')

/-! ## Running in pieces -/

/-- Between two texts, the end of a line separates their tokens. -/
theorem Token.ofSource_newline (a b : String) :
    ofSource (a ++ "\n" ++ b) = ofSource a ++ ofSource b := by
  have hText : (a ++ "\n" ++ b).toList = a.toList ++ '\n' :: b.toList := by simp
  rw [ofSource, hText, scan_append_lineEnd (.inl rfl)]
  rfl

namespace Script

/-- A script in two pieces is parsed piece by piece. -/
theorem parse_newline {a b : String} (hClean : (parse a).diagnostics = [])
    (hEnds : EndsStatement (Token.ofSource a)) (hCleanBehind : (parse b).diagnostics = []) :
    (parse (a ++ "\n" ++ b)).value = (parse a).value ++ (parse b).value ∧
      (parse (a ++ "\n" ++ b)).diagnostics = [] := by
  unfold parse
  rw [Token.ofSource_newline]
  exact parse_append_of_wellFormed Token.kind_ne_endOfInput_of_mem_ofSource
    Token.kind_ne_endOfInput_of_mem_ofSource hClean hEnds hCleanBehind

/-- Running two pieces of a script in a row, each on a line of its own, is the same as running
the script. If the first piece fails, the script fails in the same way and with the same
environment, and the second piece has no effect. -/
theorem run_newline {a b : String} (hClean : (parse a).diagnostics = [])
    (hEnds : EndsStatement (Token.ofSource a))
    (hReturn : Statement.anyReturn (parse a).value = false)
    (hCleanBehind : (parse b).diagnostics = []) (hMore : (parse b).value ≠ [])
    (env : Environment) :
    run (a ++ "\n" ++ b) env =
      match run a env with
      | (.ok _, env') => run b env'
      | (.error failure, env') => (.error failure, env') := by
  obtain ⟨hValue, hWhole⟩ := parse_newline hClean hEnds hCleanBehind
  simp only [run_of_wellFormed hClean, run_of_wellFormed hCleanBehind, run_of_wellFormed hWhole,
    runProgram, hValue, Fragment.run_program_append hReturn hMore]
  rcases (Fragment.program (parse a).value).run env with ⟨outcome, env'⟩
  cases outcome with
  | ok v => rfl
  | error fault => rfl

/-- The last line of the first piece ends with a comment, and the second piece is `-x`, which is
not subtracted from what stands before it. -/
theorem run_newline_comment :
    let a := "let x = 3; 5; // five"
    let b := "-x"
    (parse a).diagnostics = [] ∧ EndsStatement (Token.ofSource a) ∧
      Statement.anyReturn (parse a).value = false ∧
      (parse b).diagnostics = [] ∧ (parse b).value ≠ [] ∧
      run (a ++ "\n" ++ b) .empty = run b (run a .empty).2 ∧
      (run (a ++ "\n" ++ b) .empty).1 = .ok (.integer (-3)) := by
  intro a b
  have hClean : (parse a).diagnostics = [] := by decide +kernel
  have hEnds : EndsStatement (Token.ofSource a) := ⟨⟨.semicolon, ";"⟩, by decide +kernel, rfl⟩
  have hReturn : Statement.anyReturn (parse a).value = false := by decide +kernel
  have hCleanBehind : (parse b).diagnostics = [] := by decide +kernel
  have hMore : (parse b).value ≠ [] := by decide +kernel
  have hFirst : (run a .empty).1 = .ok (.integer 5) := by decide +kernel
  have hWhole := run_newline hClean hEnds hReturn hCleanBehind hMore .empty
  rcases hOutcome : run a .empty with ⟨outcome, env'⟩
  rw [hOutcome] at hFirst hWhole
  obtain rfl : outcome = .ok (.integer 5) := hFirst
  exact ⟨hClean, hEnds, hReturn, hCleanBehind, hMore, hWhole, by decide +kernel⟩

/-- Without the semicolon the second piece goes on with the expression of the first one. -/
example :
    (run ("5" ++ "\n" ++ "-3") .empty).1 = .ok (.integer 2) ∧
      (run "-3" .empty).1 = .ok (.integer (-3)) := by
  decide +kernel

end Script

end MonkeyLang
