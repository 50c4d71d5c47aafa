import MonkeyLang.Proofs.Braces
import MonkeyLang.Proofs.Embedding.Reading
import MonkeyLang.Proofs.Yields

/-!
# Blocks are read like programs

A block with balanced braces holds the statements that its body has as a program of its own, and
the diagnostics are the same too, except that they speak of the closing brace where the program
has come to its end.

* `Cursor.block_succeeds` : any block, wherever it stands.
* `parse_conditional` : a program of one conditional with the block as either of its branches.
-/

namespace MonkeyLang

open Cursor

/-! ## The body of a block -/

namespace Embedding

/-- The body of a block, in front of its closing brace. -/
def body (depth : Nat) (brace : Token) (rest : List Token) (hBrace : brace.kind = .rightBrace) :
    Embedding where
  following := brace :: rest
  lift := depth + 1
  finish := .rightBrace
  inside := Closes
  finish_eq := .inr rfl
  pass h _ := h.2
  terminate h hKind := .inl (by simpa [hKind, nestingAfter] using h)
  guarded h hKind := absurd (h.1 hKind) (Nat.lt_irrefl 0)
  exhausted h := .inr ⟨h, Nat.succ_pos depth, rfl, hBrace⟩

variable {depth : Nat} {brace : Token} {rest : List Token} {hBrace : brace.kind = .rightBrace}

/-- The body of a block is read as a program is. -/
theorem blockRest_body (a b : Cursor) (h : (body depth brace rest hBrace).Between a b)
    (hDepth : a.depth = 0) :
    (blockRest b).value = some (program a).value ∧
      (blockRest b).diagnostics =
        (program a).diagnostics.map (Diagnostic.replaceEnd .rightBrace) ∧
      (blockRest b).cursor.tokens = brace :: rest ∧ (blockRest b).cursor.Settled := by
  induction a using program.induct generalizing b with
  | case1 a hEnd =>
    have hTokens : b.tokens = brace :: rest := by
      rw [h.tokens, tokens_eq_nil h.plain hEnd]
      rfl
    have hKind : b.current.kind = .rightBrace := by
      rw [current_eq hTokens]
      exact hBrace
    rw [blockRest_of_rightBrace hKind, program_of_end hEnd]
    exact ⟨rfl, rfl, hTokens, settled_closeBlock⟩
  | case2 a hEnd ih =>
    have hAt := h.at_of_kind hEnd
    have hStatement := hAt.agrees_statement hEnd
    have hCurrent := hAt.current_eq hEnd
    have hEndAbove : b.current.kind ≠ .endOfInput := hCurrent ▸ hEnd
    have hBraceAbove : b.current.kind ≠ .rightBrace := by
      rw [hCurrent]
      intro hKind
      have hCloses := hAt.inside_cons hEnd
      rw [hDepth] at hCloses
      exact absurd (hCloses.1 hKind) (Nat.lt_irrefl 0)
    have hDepth' : (statement a).cursor.depth = 0 := (depth_statement a).trans hDepth
    cases hValue : (statement a).value with
    | some s =>
      obtain ⟨hTrees, hReports, hTokens, hSettled⟩ :=
        ih _ (statement a).remaining_le _ (hStatement.found s hValue) hDepth'
      rw [program_of_some hEnd hValue,
        blockRest_of_some hBraceAbove hEndAbove (hStatement.value.trans hValue)]
      refine ⟨congrArg (Option.map (s :: ·)) hTrees, ?_, hTokens, hSettled⟩
      simp only [Step.diagnostics_bind, Step.diagnostics_advancing, Step.diagnostics_map,
        List.map_append, hStatement.diagnostics]
      exact congrArg _ hReports
    | none =>
      rw [program_of_none hEnd hValue,
        blockRest_of_none hBraceAbove hEndAbove (hStatement.value.trans hValue)]
      cases recovered (hStatement.lost hValue) with
      | onward _ hAbove hBetween =>
        obtain ⟨hTrees, hReports, hTokens, hSettled⟩ :=
          ih _ (Nat.le_trans (Step.remaining_le _) (statement a).remaining_le) _ hBetween
            ((depth_recover _).trans hDepth')
        simp only [Step.value_bind, Step.diagnostics_bind, Step.cursor_bind, hAbove,
          Bool.false_eq_true, if_false, diagnostics_recover, List.nil_append, List.map_append,
          hStatement.diagnostics]
        exact ⟨hTrees, congrArg _ hReports, hTokens, hSettled⟩
      | ownBrace hOwn _ _ _ =>
        rw [value_recover_of_outside hDepth'] at hOwn
        cases hOwn
      | outerBrace _ hAbove hAligned hNil _ =>
        have hTokens := hAligned.tokens
        have hEndBelow : (statement a).cursor.recover.cursor.advance.current.kind =
            .endOfInput := by
          show firstKind (statement a).cursor.recover.cursor.tokens.tail = _
          rw [hNil]
          rfl
        rw [hNil] at hTokens
        simp only [Step.value_bind, Step.diagnostics_bind, Step.cursor_bind, hAbove, if_true,
          Step.value_advancing, Step.diagnostics_advancing, program_of_end hEndBelow,
          diagnostics_recover, List.nil_append, List.map_append, hStatement.diagnostics]
        exact ⟨rfl, rfl, hTokens, settled_closeBlock⟩

end Embedding

/-- Any block with a balanced body succeeds with what its body has as a program. -/
theorem Cursor.block_succeeds {c : Cursor} {opened closed : Token} {body rest : List Token}
    (hPlain : ∀ t ∈ body, t.kind ≠ .endOfInput) (hBalanced : Balanced body)
    (hClosed : closed.kind = .rightBrace) (hTokens : c.tokens = opened :: (body ++ closed :: rest))
    (hSettled : c.Settled) :
    ∃ c', (block c).Succeeds (parse body).value
        ((parse body).diagnostics.map (Diagnostic.replaceEnd .rightBrace)) c' ∧
      c'.tokens = closed :: rest ∧ c'.Settled := by
  have hBetween : (Embedding.body c.depth closed rest hClosed).Between (.start body)
      c.enterBlock :=
    { tokens := by
        show c.tokens.tail = _
        rw [hTokens]
        rfl
      depth := (Nat.zero_add _).symm
      plain := hPlain
      inside := .inl (closes_zero_iff_balanced.mpr hBalanced)
      fresh := fresh_start body
      freshAbove := hSettled.advance }
  obtain ⟨hTrees, hReports, hRest, hSettled'⟩ :=
    Embedding.blockRest_body (.start body) c.enterBlock hBetween rfl
  rw [block]
  exact ⟨_, .inBlock ⟨hTrees, hReports, rfl⟩, hRest, hSettled'⟩

/-! ## Conditionals -/

namespace Cursor

variable {c d c' : Cursor} {ss : List Statement} {other : Option (List Statement)}
  {ds es : List Diagnostic}

/-- A conditional whose test is `true` succeeds with what its branches succeed with. -/
theorem operand_conditional (hWord : c.current.kind = .ifWord)
    (hOpen : c.upcoming.kind = .leftParen)
    (hTrue : c.advance.advance.current.kind = .trueWord)
    (hClose : c.advance.advance.upcoming.kind = .rightParen)
    (hBrace : c.advance.advance.advance.upcoming.kind = .leftBrace)
    (hBlock : (block c.advance.advance.advance.advance).Succeeds ss ds d)
    (hOther : (alternative d).Succeeds other es c') :
    (operand c).Succeeds (.conditional (.boolean true) ss other) (ds ++ es) c' := by
  have hTest : (expression .lowest c.advance.advance).Yields (.boolean true)
      c.advance.advance := by
    rw [expression, operand_of_trueWord hTrue]
    refine Attempt.Yields.andThen (Attempt.yields_stay.mpr ⟨rfl, rfl⟩) fun _ => ?_
    rw [operators_of_stops (stops_of_none .lowest (by rw [hClose]; rfl))]
    exact Attempt.yields_stay.mpr ⟨rfl, rfl⟩
  rw [operand_of_ifWord hWord]
  refine (Attempt.yields_expect_of_kind hOpen).andThen_succeeds fun _ => .advancing ?_
  refine hTest.andThen_succeeds fun _ => ?_
  refine (Attempt.yields_expect_of_kind hClose).andThen_succeeds fun _ => ?_
  refine (Attempt.yields_expect_of_kind hBrace).andThen_succeeds fun _ => ?_
  exact hBlock.andThen fun _ => hOther.mapValue _

theorem alternative_none (h : c.upcoming.kind ≠ .elseWord) :
    (alternative c).Succeeds none [] c := by
  rw [alternative, if_neg h]
  exact ⟨rfl, rfl, rfl⟩

theorem alternative_some (hElse : c.upcoming.kind = .elseWord)
    (hBrace : c.advance.upcoming.kind = .leftBrace)
    (hBlock : (block c.advance.advance).Succeeds ss ds c') :
    (alternative c).Succeeds (some ss) ds c' := by
  rw [alternative, if_pos hElse]
  exact .advancing ((Attempt.yields_expect_of_kind hBrace).andThen_succeeds
    fun _ => hBlock.mapValue some)

end Cursor

/-- A program of one operand. -/
theorem parse_of_operand {ts : List Token} {e : Expr} {ds : List Diagnostic} {c' : Cursor}
    (hStarts : (firstKind ts).startsOperand = true) (h : (operand (.start ts)).Succeeds e ds c')
    (hEnd : c'.tokens.tail = []) :
    (parse ts).value = [.expression (ts.headD Token.finish).literal e] ∧
      (parse ts).diagnostics = ds := by
  have hUpcoming : c'.upcoming.kind = .endOfInput := by
    show firstKind c'.tokens.tail = _
    rw [hEnd]
    rfl
  have hExpression : (expression .lowest (.start ts)).Succeeds e ds c' := by
    rw [expression, ← List.append_nil ds]
    refine h.andThen fun _ => (Attempt.Yields.succeeds ?_)
    rw [operators_of_stops (stops_of_none .lowest (by rw [hUpcoming]; rfl))]
    exact Attempt.yields_stay.mpr ⟨rfl, rfl⟩
  have hNotWord : ∀ kind, kind.startsOperand = false → (start ts).current.kind ≠ kind := by
    rintro _ hNot rfl
    exact Bool.false_ne_true (hNot.symm.trans hStarts)
  have hStatement : (statement (.start ts)).Succeeds
      (.expression (ts.headD Token.finish).literal e) ds c' := by
    rw [statement_of_expression (hNotWord _ rfl) (hNotWord _ rfl), ← List.append_nil ds]
    refine hExpression.andThen fun _ => (Attempt.Yields.succeeds ?_)
    rw [Attempt.yields_endStatement, hUpcoming]
    exact ⟨rfl, rfl⟩
  rw [parse, program_of_some (hNotWord _ rfl) hStatement.value]
  have hNext : program (statement (.start ts)).cursor.advance = .stay [] := by
    rw [hStatement.cursor]
    exact program_of_end hUpcoming
  simp only [Step.value_bind, Step.diagnostics_bind, Step.value_advancing,
    Step.diagnostics_advancing, Step.value_map, Step.diagnostics_map, hNext,
    hStatement.diagnostics]
  exact ⟨rfl, List.append_nil ds⟩

/-- A program of one conditional whose test is `true`, by what its branches succeed with. -/
theorem parse_of_branches {front rest : List Token} {ss : List Statement}
    {other : Option (List Statement)} {ds es : List Diagnostic}
    (hFront : front.map Token.kind = [.ifWord, .leftParen, .trueWord, .rightParen, .leftBrace])
    (hBranches : ∀ c opened, c.tokens = opened :: rest → c.Settled →
      ∃ d c', (block c).Succeeds ss ds d ∧ (alternative d).Succeeds other es c' ∧
        c'.tokens.tail = []) :
    (parse (front ++ rest)).value =
        [.expression (front.headD Token.finish).literal
          (.conditional (.boolean true) ss other)] ∧
      (parse (front ++ rest)).diagnostics = ds ++ es := by
  simp only [List.map_eq_cons_iff, List.map_eq_nil_iff] at hFront
  obtain ⟨t₀, _, rfl, hWord, t₁, _, rfl, hOpen, t₂, _, rfl, hTrue, t₃, _, rfl, hClose, t₄, _, rfl,
    hBrace, rfl⟩ := hFront
  let c := (start ([t₀, t₁, t₂, t₃, t₄] ++ rest)).advance.advance.advance.advance
  have hSettled : c.Settled := fun p hp => nomatch hp
  obtain ⟨d, c', hBlock, hOther, hEnd⟩ := hBranches c t₄ rfl hSettled
  refine parse_of_operand ?_ ?_ hEnd
  · show t₀.kind.startsOperand = true
    rw [hWord]
    rfl
  · exact operand_conditional hWord hOpen hTrue hClose hBrace hBlock hOther

/-- Nothing is read where there are no tokens. -/
theorem parse_nil : parse [] = .stay [] := by
  rw [parse, program_of_end rfl]

/-- As the consequence of a conditional, and as its alternative behind an empty consequence, a
balanced body is parsed to the statements and the diagnostics it has as a program, where the
closing brace takes the place of the end of input. -/
theorem parse_conditional {front middle body : List Token} {closed : Token}
    (hPlain : ∀ t ∈ body, t.kind ≠ .endOfInput) (hBalanced : Balanced body)
    (hFront : front.map Token.kind = [.ifWord, .leftParen, .trueWord, .rightParen, .leftBrace])
    (hMiddle : middle.map Token.kind = [.rightBrace, .elseWord, .leftBrace])
    (hClosed : closed.kind = .rightBrace) :
    let literal := (front.headD Token.finish).literal
    let reports := (parse body).diagnostics.map (Diagnostic.replaceEnd .rightBrace)
    ((parse (front ++ (body ++ [closed]))).value =
        [.expression literal (.conditional (.boolean true) (parse body).value none)] ∧
      (parse (front ++ (body ++ [closed]))).diagnostics = reports) ∧
    ((parse (front ++ (middle ++ (body ++ [closed])))).value =
        [.expression literal (.conditional (.boolean true) [] (some (parse body).value))] ∧
      (parse (front ++ (middle ++ (body ++ [closed])))).diagnostics = reports) := by
  intro literal reports
  constructor
  · rw [← List.append_nil reports]
    refine parse_of_branches hFront fun c opened hTokens hSettled => ?_
    obtain ⟨d, hBlock, hRest, -⟩ := block_succeeds hPlain hBalanced hClosed hTokens hSettled
    have hEnd : d.tokens.tail = [] := by
      rw [hRest]
      rfl
    have hNoElse : d.upcoming.kind ≠ .elseWord := by
      show firstKind d.tokens.tail ≠ .elseWord
      rw [hEnd]
      decide
    exact ⟨d, d, hBlock, alternative_none hNoElse, hEnd⟩
  · rw [← List.nil_append reports]
    refine parse_of_branches hFront fun c opened hTokens hSettled => ?_
    simp only [List.map_eq_cons_iff, List.map_eq_nil_iff] at hMiddle
    obtain ⟨t₀, _, rfl, hBrace, t₁, _, rfl, hElse, t₂, _, rfl, hOpen, rfl⟩ := hMiddle
    have hEmpty : Balanced [] := closes_zero_iff_balanced.mp rfl
    obtain ⟨d, hConsequence, hRest, hSettled'⟩ :=
      block_succeeds (List.forall_mem_nil _) hEmpty hBrace hTokens hSettled
    rw [parse_nil] at hConsequence
    have hElse' : d.upcoming.kind = .elseWord :=
      (congrArg (fun us : List Token => firstKind us.tail) hRest).trans hElse
    have hOpen' : d.advance.upcoming.kind = .leftBrace :=
      (congrArg (fun us : List Token => firstKind us.tail.tail) hRest).trans hOpen
    have hTokens' : d.advance.advance.tokens = t₂ :: (body ++ [closed]) :=
      congrArg (fun us : List Token => us.tail.tail) hRest
    obtain ⟨c', hBlock, hEnd, -⟩ := block_succeeds hPlain hBalanced hClosed hTokens'
      hSettled'.advance.settled.advance.settled
    refine ⟨d, c', hConsequence, alternative_some hElse' hOpen' hBlock, ?_⟩
    rw [hEnd]
    rfl

/-- A body that breaks off at the closing brace, `let x = (a`, in both branches. -/
theorem parse_conditional_cut_short :
    let front : List Token := [⟨.ifWord, "if"⟩, ⟨.leftParen, "("⟩, ⟨.trueWord, "true"⟩,
      ⟨.rightParen, ")"⟩, ⟨.leftBrace, "\x7b"⟩]
    let middle : List Token := [⟨.rightBrace, "\x7d"⟩, ⟨.elseWord, "else"⟩, ⟨.leftBrace, "\x7b"⟩]
    let body : List Token := [⟨.letWord, "let"⟩, ⟨.identifier, "x"⟩, ⟨.assign, "="⟩,
      ⟨.leftParen, "("⟩, ⟨.identifier, "a"⟩]
    let closed : Token := ⟨.rightBrace, "\x7d"⟩
    let reports := (parse body).diagnostics.map (Diagnostic.replaceEnd .rightBrace)
    Balanced body ∧
    ((parse (front ++ (body ++ [closed]))).value =
        [.expression "if" (.conditional (.boolean true) (parse body).value none)] ∧
      (parse (front ++ (body ++ [closed]))).diagnostics = reports) ∧
    ((parse (front ++ (middle ++ (body ++ [closed])))).value =
        [.expression "if" (.conditional (.boolean true) [] (some (parse body).value))] ∧
      (parse (front ++ (middle ++ (body ++ [closed])))).diagnostics = reports) := by
  intro front middle body closed reports
  have hPlain : ∀ t ∈ body, t.kind ≠ .endOfInput := by decide
  have hBalanced : Balanced body :=
    closes_zero_iff_balanced.mp (by simp [body, nestingAfter])
  exact ⟨hBalanced, parse_conditional hPlain hBalanced rfl rfl rfl⟩

end MonkeyLang
