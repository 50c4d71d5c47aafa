import MonkeyLang.Proofs.Blocks
import MonkeyLang.Proofs.Reading.Recovery
import MonkeyLang.Proofs.Unclosed.Recovery

/-!
# Blocks that are never closed

A block is reported as unclosed where the input ends in it. At that place the blocks that are
open are among the braces that stay open, so there are no more reports than such braces, however
malformed the text is otherwise.

* `Unclosed.Tallies` : what an attempt reports and where it ends, with one rule for each way to
  build an attempt.
* `Unclosed.tallies_cases` collects the cases for the induction over reading.
* `missingBraces_parse_le` : a parse reports no more missing braces than the text has opening
  braces in excess; in a balanced text every block ends on the partner of its opening brace.
-/

namespace MonkeyLang

open Cursor

/-- A closing brace is required and another token comes next. -/
def Diagnostic.isMissingBrace : Diagnostic → Bool
  | .expectedToken .rightBrace _ => true
  | _ => false

/-- How many closing braces are reported as missing. -/
def missingBraces (ds : List Diagnostic) : Nat :=
  ds.countP Diagnostic.isMissingBrace

@[simp] theorem missingBraces_nil : missingBraces [] = 0 := rfl

@[simp] theorem missingBraces_append (ds es : List Diagnostic) :
    missingBraces (ds ++ es) = missingBraces ds + missingBraces es :=
  List.countP_append

theorem missingBraces_singleton {d : Diagnostic} (h : d.isMissingBrace = false) :
    missingBraces [d] = 0 := by
  simp [missingBraces, h]

theorem isMissingBrace_expectedToken {expected found : Token.Kind} (h : expected ≠ .rightBrace) :
    (Diagnostic.expectedToken expected found).isMissingBrace = false := by
  unfold Diagnostic.isMissingBrace
  split
  · rename_i hEq
    cases hEq
    exact absurd rfl h
  · rfl

namespace Unclosed

/-! ## Tallies -/

/-- An attempt that succeeds reports no missing brace and ends as `found` says. Where one fails,
`lost` holds of the number of missing braces it has reported and of the place. -/
structure Tallies {c : Cursor} {α : Type} (found : Cursor → Prop) (lost : Nat → Cursor → Prop)
    (s : Attempt c α) : Prop where
  found : ∀ v, s.value = some v → missingBraces s.diagnostics = 0 ∧ found s.cursor
  lost : s.value = none → lost (missingBraces s.diagnostics) s.cursor

variable {found mid : Cursor → Prop} {lost : Nat → Cursor → Prop} {c : Cursor} {α β : Type}

namespace Tallies

theorem goto (v : α) {c' : Cursor} (h : c'.remaining ≤ c.remaining) (hFound : found c') :
    Tallies found lost (.goto (some v) c' h : Attempt c α) where
  found _ _ := ⟨rfl, hFound⟩
  lost hNone := nomatch hNone

theorem stay (v : α) (h : found c) : Tallies found lost (.stay (some v) : Attempt c α) :=
  goto v (Nat.le_refl _) h

theorem fail {d : Diagnostic} (h : lost (missingBraces [d]) c) :
    Tallies found lost (.fail d : Attempt c α) where
  found _ hSome := nomatch hSome
  lost _ := h

theorem advancing {s : Attempt c.advance α} (h : Tallies found lost s) :
    Tallies found lost (.advancing s : Attempt c α) :=
  ⟨h.found, h.lost⟩

theorem inBlock {s : Attempt c.enterBlock α}
    (h : Tallies (fun c' => found c'.leaveBlock) (fun n c' => lost n c'.leaveBlock) s) :
    Tallies found lost (.inBlock s : Attempt c α) :=
  ⟨h.found, h.lost⟩

theorem mapValue (f : α → β) {s : Attempt c α} (h : Tallies found lost s) :
    Tallies found lost (s.mapValue f) where
  found v hSome := by
    obtain ⟨u, hu, -⟩ := Option.map_eq_some_iff.mp hSome
    exact h.found u hu
  lost hNone := h.lost (Option.map_eq_none_iff.mp hNone)

theorem bind {s : Step c α} {f : α → (c' : Cursor) → c'.remaining ≤ c.remaining → Attempt c' β}
    (hs : missingBraces s.diagnostics = 0)
    (h : Tallies found lost (f s.value s.cursor s.remaining_le)) :
    Tallies found lost (Step.bind s f : Attempt c β) := by
  obtain ⟨hFound, hLost⟩ := h
  constructor
  all_goals rwa [Step.diagnostics_bind, missingBraces_append, hs, Nat.zero_add]

theorem andThen {s : Attempt c α}
    {f : α → (c' : Cursor) → c'.remaining ≤ c.remaining → Attempt c' β}
    (h : Tallies mid lost s) (hNext : ∀ v c' hc, mid c' → Tallies found lost (f v c' hc)) :
    Tallies found lost (s.andThen f) := by
  cases hValue : s.value with
  | none =>
    rw [Attempt.andThen_of_none hValue]
    exact ⟨fun _ hSome => (nomatch hSome), fun _ => h.lost hValue⟩
  | some v =>
    rw [Attempt.andThen_of_some hValue]
    obtain ⟨hNone, hMid⟩ := h.found v hValue
    exact .bind hNone (hNext v _ _ hMid)

theorem mono {found' : Cursor → Prop} {s : Attempt c α} (h : Tallies found lost s)
    (hFound : ∀ c', found c' → found' c') : Tallies found' lost s :=
  ⟨fun v hSome => (h.found v hSome).imp_right (hFound _), h.lost⟩

end Tallies

/-! ## Single tokens -/

variable {unclosed : Nat}

/-- A reason that is no missing brace. -/
theorem tallies_fail {d : Diagnostic} (hd : d.isMissingBrace = false) (h : Stuck unclosed 0 c) :
    Tallies found (Lost unclosed) (.fail d : Attempt c α) :=
  .fail (.inl ⟨missingBraces_singleton hd, h⟩)

/-- A token that is no closing brace is required without reporting one as missing. -/
theorem Behind.tallies_expect (h : Behind unclosed c) {kind : Token.Kind}
    (hKind : kind ≠ .rightBrace) :
    Tallies (fun c' => Before unclosed 0 c' ∧ c'.current.kind = kind) (Lost unclosed)
      (c.expect kind) := by
  unfold Cursor.expect
  by_cases hNext : c.upcoming.kind = kind
  · rw [if_pos hNext]
    exact .goto () _ ⟨h.advance, hNext⟩
  · rw [if_neg hNext]
    exact tallies_fail (isMissingBrace_expectedToken hKind) (.inr ⟨rfl, h⟩)

/-- The end of a statement reports nothing. -/
theorem Behind.tallies_endStatement (h : Behind unclosed c) (v : α) :
    Tallies (fun c' => Before unclosed 0 c'.advance) lost (c.endStatement v) := by
  unfold Cursor.endStatement
  by_cases hNext : c.upcoming.kind = .semicolon
  · rw [if_pos hNext]
    exact .goto v _ (h.advance.behind_of_kind (c := c.advance) hNext).advance
  · rw [if_neg hNext]
    exact .stay v h.advance

/-! ## Reading -/

/-- A statement that is read has no missing brace, and the next one starts at the same nesting. -/
def StatementTallies (unclosed : Nat) (c : Cursor) : Prop :=
  Before unclosed 0 c →
    Tallies (fun c' => Before unclosed 0 c'.advance) (Lost unclosed) (statement c)

/-- An expression that is read has no missing brace and ends in the block it starts in. -/
def ExpressionTallies (unclosed : Nat) (limit : Precedence) (c : Cursor) : Prop :=
  Before unclosed 0 c → Tallies (Behind unclosed) (Lost unclosed) (expression limit c)

/-- The operators that continue an expression end in the block the expression is in. -/
def OperatorsTally (unclosed : Nat) (limit : Precedence) (left : Expr) (c : Cursor) : Prop :=
  Behind unclosed c → Tallies (Behind unclosed) (Lost unclosed) (operators limit left c)

/-- An operand that is read has no missing brace and ends in the block it starts in. -/
def OperandTallies (unclosed : Nat) (c : Cursor) : Prop :=
  Before unclosed 0 c → Tallies (Behind unclosed) (Lost unclosed) (operand c)

/-- An alternative that is read has no missing brace, and its block has been left at its end. -/
def AlternativeTallies (unclosed : Nat) (c : Cursor) : Prop :=
  Behind unclosed c → Tallies (Behind unclosed) (Lost unclosed) (alternative c)

/-- A block that is read has no missing brace and has been left at its end. -/
def BlockTallies (unclosed : Nat) (c : Cursor) : Prop :=
  Before unclosed 0 c → c.current.kind = .leftBrace →
    Tallies (Behind unclosed) (Lost unclosed) (block c)

/-- A block fails only where the input ends. Its end is described after leaving it. -/
def BlockRestTallies (unclosed : Nat) (c : Cursor) : Prop :=
  Before unclosed 0 c → 0 < c.depth →
    Tallies (fun c' => Behind unclosed c'.leaveBlock) (fun n c' => Ended unclosed n c'.leaveBlock)
      (blockRest c)

/-! ### Operands -/

theorem operandTallies_of_isOperand {e : Expr} (h : c.current.IsOperand e) :
    OperandTallies unclosed c := by
  intro hBefore
  rw [operand_of_isOperand h]
  cases h with
  | identifier hKind | integer hKind _ | trueWord hKind | falseWord hKind =>
    exact .stay _ (hBefore.behind_of_kind hKind)

theorem operandTallies_of_bad_integer (hKind : c.current.kind = .integer)
    (hValue : Integer.ofText? c.current.literal = none) : OperandTallies unclosed c := by
  intro h
  rw [operand_of_bad_integer hKind hValue]
  exact tallies_fail rfl (.inl h)

theorem operandTallies_of_unary (op : UnaryOperator)
    (hOp : UnaryOperator.ofKind? c.current.kind = some op)
    (ih : ExpressionTallies unclosed .unary c.advance) : OperandTallies unclosed c := by
  intro h
  have hKind := UnaryOperator.ofKind?_eq_some_iff.mp hOp
  have hBehind := h.behind_of_kind hKind (by cases op <;> decide)
  rw [operand_of_unary op hOp]
  exact .advancing (.mapValue _ (ih hBehind.advance))

theorem operandTallies_of_leftParen (hKind : c.current.kind = .leftParen)
    (ih : ExpressionTallies unclosed .lowest c.advance) : OperandTallies unclosed c := by
  intro h
  rw [operand_of_leftParen hKind]
  refine .advancing (.andThen (ih (h.behind_of_kind hKind).advance) ?_)
  intro inner c₁ _ h₁
  refine .mapValue _ ((h₁.tallies_expect (by decide)).mono ?_)
  intro c₂ h₂
  exact h₂.1.behind_of_kind h₂.2

theorem operandTallies_of_ifWord (hKind : c.current.kind = .ifWord)
    (ihTest : ∀ c' : Cursor, c'.remaining ≤ c.remaining →
      ExpressionTallies unclosed .lowest c'.advance)
    (ihBlock : ∀ c' : Cursor, c'.remaining ≤ c.remaining →
      ∀ c'' : Cursor, c''.remaining ≤ c'.advance.remaining → BlockTallies unclosed c'')
    (ihOther : ∀ c' : Cursor, c'.remaining ≤ c.remaining →
      ∀ c'' : Cursor, c''.remaining ≤ c'.advance.remaining → AlternativeTallies unclosed c'') :
    OperandTallies unclosed c := by
  intro h
  rw [operand_of_ifWord hKind]
  refine .andThen ((h.behind_of_kind hKind).tallies_expect (by decide)) ?_
  intro _ c₁ hc₁ h₁
  obtain ⟨h₁, hKind₁⟩ := h₁
  refine .advancing (.andThen (ihTest c₁ hc₁ (h₁.behind_of_kind hKind₁).advance) ?_)
  intro test c₂ hc₂ h₂
  refine .andThen (h₂.tallies_expect (by decide)) ?_
  intro _ c₃ hc₃ h₃
  obtain ⟨h₃, hKind₃⟩ := h₃
  refine .andThen ((h₃.behind_of_kind hKind₃).tallies_expect (by decide)) ?_
  intro _ c₄ hc₄ h₄
  obtain ⟨h₄, hKind₄⟩ := h₄
  have hLess := Nat.le_trans hc₄ (Nat.le_trans hc₃ hc₂)
  refine .andThen (ihBlock c₁ hc₁ c₄ hLess h₄ hKind₄) ?_
  intro consequence c₅ hc₅ h₅
  exact .mapValue _ (ihOther c₁ hc₁ c₅ (Nat.le_trans hc₅ hLess) h₅)

theorem operandTallies_of_not_startsOperand (hKind : c.current.kind.startsOperand = false) :
    OperandTallies unclosed c := by
  intro h
  rw [operand_of_not_startsOperand hKind]
  exact tallies_fail rfl (.inl h)

/-! ### Expressions -/

theorem expressionTallies_of_operand {limit : Precedence} (ihOperand : OperandTallies unclosed c)
    (ihRest : ∀ (left : Expr) (c' : Cursor), c'.remaining ≤ c.remaining →
      OperatorsTally unclosed limit left c') : ExpressionTallies unclosed limit c := by
  intro h
  rw [expression]
  exact (ihOperand h).andThen fun left c' hc h' => ihRest left c' hc h'

theorem operatorsTally_of_stronger {limit : Precedence} {left : Expr} {op : BinaryOperator}
    (hOp : BinaryOperator.ofKind? c.upcoming.kind = some op) (hLimit : limit < op.precedence)
    (ihRight : ExpressionTallies unclosed op.precedence c.advance.advance)
    (ihRest : ∀ (right : Expr) (c' : Cursor), c'.remaining ≤ c.advance.advance.remaining →
      OperatorsTally unclosed limit (.binary op left right) c') :
    OperatorsTally unclosed limit left c := by
  intro h
  have hKind : c.advance.current.kind = op.kind := BinaryOperator.ofKind?_eq_some_iff.mp hOp
  have hOperator := h.advance.behind_of_kind hKind (by cases op <;> decide)
  rw [operators_of_stronger hOp hLimit]
  refine .advancing (.advancing (.andThen (ihRight hOperator.advance) ?_))
  intro right c' hc h'
  exact ihRest right c' hc h'

theorem operatorsTally_of_stops {limit : Precedence} {left : Expr} (hStops : c.Stops limit) :
    OperatorsTally unclosed limit left c := by
  intro h
  rw [operators_of_stops hStops]
  exact .stay left h

/-! ### Blocks -/

theorem alternativeTallies_of_elseWord (hElse : c.upcoming.kind = .elseWord)
    (ih : ∀ c' : Cursor, c'.remaining ≤ c.advance.remaining → BlockTallies unclosed c') :
    AlternativeTallies unclosed c := by
  intro h
  have hWord : Behind unclosed c.advance := h.advance.behind_of_kind hElse
  rw [alternative, if_pos hElse]
  refine .advancing (.andThen (hWord.tallies_expect (by decide)) ?_)
  intro _ c' hc h'
  exact .mapValue _ (ih c' hc h'.1 h'.2)

theorem alternativeTallies_of_ne (hElse : c.upcoming.kind ≠ .elseWord) :
    AlternativeTallies unclosed c := by
  intro h
  rw [alternative, if_neg hElse]
  exact .stay none h

theorem blockTallies_of_rest (ih : BlockRestTallies unclosed c.enterBlock) :
    BlockTallies unclosed c := by
  intro h hKind
  obtain ⟨hFound, hLost⟩ := ih (h.enterBlock hKind) (Nat.succ_pos _)
  rw [block]
  exact .inBlock ⟨hFound, fun hNone => .inr (hLost hNone)⟩

theorem blockRestTallies_of_rightBrace (hBrace : c.current.kind = .rightBrace) :
    BlockRestTallies unclosed c := by
  intro h _
  rw [blockRest_of_rightBrace hBrace]
  exact .goto [] _ (h.closeBlock hBrace)

/-- The block in which the input has ended is reported too. -/
theorem Ended.leaveBlock {reported : Nat} (h : Ended unclosed reported c) (hDepth : 0 < c.depth) :
    Ended unclosed (reported + 1) c.leaveBlock where
  tokens := h.tokens
  depth := by
    have hLe := h.depth
    show reported + 1 + (c.depth - 1) ≤ unclosed
    omega

theorem blockRestTallies_of_end (hEnd : c.current.kind = .endOfInput) :
    BlockRestTallies unclosed c := by
  intro h hDepth
  rw [blockRest_of_end hEnd]
  exact .fail ((h.ended hEnd).leaveBlock hDepth)

/-- The block goes on behind a statement that has been given up, or the input has ended. -/
theorem blockRestTallies_of_none (hBrace : c.current.kind ≠ .rightBrace)
    (hEnd : c.current.kind ≠ .endOfInput) (hNone : (statement c).value = none)
    (ihStatement : StatementTallies unclosed c)
    (ihRest : ∀ c' : Cursor, c'.remaining ≤ c.remaining → BlockRestTallies unclosed c'.advance) :
    BlockRestTallies unclosed c := by
  intro h hDepth
  obtain ⟨hOwn, hOnward⟩ := recovered ((ihStatement h).lost hNone)
  have hInside : 0 < c.stopped.depth := c.depth_stopped ▸ hDepth
  cases hRecover : (statement c).cursor.recover.value with
  | true =>
    obtain ⟨hReported, hBefore⟩ := hOwn hRecover
    obtain ⟨hSome, hCursor, hReports⟩ := blockRest_of_ownBrace hBrace hEnd hNone hRecover
    have hClose := current_of_atOwnBrace (atOwnBrace_of_value_recover hRecover)
    refine ⟨fun _ _ => ⟨hReports ▸ hReported, ?_⟩, fun hNone' => ?_⟩
    · rw [hCursor]
      exact hBefore.closeBlock hClose
    · rw [hSome] at hNone'
      cases hNone'
  | false =>
    obtain ⟨hSame, hCursor, hReports⟩ := blockRest_of_onward hBrace hEnd hNone hRecover
    rcases hOnward hRecover with ⟨hReported, hBefore⟩ | hEnded
    · have hRest := ihRest _ c.remaining_stopped_le hBefore hInside
      constructor
      all_goals rw [hSame, hCursor, hReports, missingBraces_append, hReported, Nat.zero_add]
      · exact hRest.found
      · exact hRest.lost
    · have hFail := blockRest_of_end (c := c.stopped.advance) hEnded.current_kind
      constructor
      all_goals rw [hSame, hCursor, hReports, missingBraces_append, hFail]
      · exact nofun
      · exact fun _ => hEnded.leaveBlock hInside

theorem blockRestTallies_of_statement (hBrace : c.current.kind ≠ .rightBrace)
    (hEnd : c.current.kind ≠ .endOfInput) (ihStatement : StatementTallies unclosed c)
    (ihRest : ∀ c' : Cursor, c'.remaining ≤ c.remaining → BlockRestTallies unclosed c'.advance) :
    BlockRestTallies unclosed c := by
  cases hValue : (statement c).value with
  | none => exact blockRestTallies_of_none hBrace hEnd hValue ihStatement ihRest
  | some s =>
    intro h hDepth
    obtain ⟨hNone, hNext⟩ := (ihStatement h).found s hValue
    have hInside : 0 < (statement c).cursor.advance.depth := (depth_statement c).symm ▸ hDepth
    rw [blockRest_of_some hBrace hEnd hValue]
    exact .bind hNone
      (.advancing (.mapValue _ (ihRest _ (statement c).remaining_le hNext hInside)))

/-! ### Statements -/

theorem statementTallies_of_letWord (hKind : c.current.kind = .letWord)
    (ih : ∀ c' : Cursor, c'.remaining ≤ c.remaining →
      ExpressionTallies unclosed .lowest c'.advance) : StatementTallies unclosed c := by
  intro h
  rw [statement_of_letWord hKind]
  refine .andThen ((h.behind_of_kind hKind).tallies_expect (by decide)) ?_
  intro _ c₁ hc₁ h₁
  obtain ⟨h₁, hKind₁⟩ := h₁
  refine .andThen ((h₁.behind_of_kind hKind₁).tallies_expect (by decide)) ?_
  intro _ c₂ hc₂ h₂
  obtain ⟨h₂, hKind₂⟩ := h₂
  have hValue := ih c₂ (Nat.le_trans hc₂ hc₁) (h₂.behind_of_kind hKind₂).advance
  exact .advancing (hValue.andThen fun _ _ _ h₃ => h₃.tallies_endStatement _)

theorem statementTallies_of_returnWord (hKind : c.current.kind = .returnWord)
    (ih : ExpressionTallies unclosed .lowest c.advance) : StatementTallies unclosed c := by
  intro h
  rw [statement_of_returnWord hKind]
  have hValue := ih (h.behind_of_kind hKind).advance
  exact .advancing (hValue.andThen fun _ _ _ h' => h'.tallies_endStatement _)

theorem statementTallies_of_expression (hLet : c.current.kind ≠ .letWord)
    (hReturn : c.current.kind ≠ .returnWord) (ih : ExpressionTallies unclosed .lowest c) :
    StatementTallies unclosed c := by
  intro h
  rw [statement_of_expression hLet hReturn]
  exact (ih h).andThen fun _ _ _ h' => h'.tallies_endStatement _

/-! ### The induction -/

/-- Each function that reads keeps its tally if the functions it calls do. -/
theorem tallies_cases (unclosed : Nat) :
    ReadingCases (StatementTallies unclosed) (ExpressionTallies unclosed)
      (OperatorsTally unclosed) (OperandTallies unclosed) (AlternativeTallies unclosed)
      (BlockTallies unclosed) (BlockRestTallies unclosed) where
  binding := statementTallies_of_letWord
  returning := statementTallies_of_returnWord
  expressionStatement := statementTallies_of_expression
  expression := expressionTallies_of_operand
  stronger := operatorsTally_of_stronger
  stops := operatorsTally_of_stops
  single := operandTallies_of_isOperand
  badInteger := operandTallies_of_bad_integer
  unary := operandTallies_of_unary
  group := operandTallies_of_leftParen
  conditional := operandTallies_of_ifWord
  noOperand := operandTallies_of_not_startsOperand
  alternative := alternativeTallies_of_elseWord
  noAlternative := alternativeTallies_of_ne
  block := blockTallies_of_rest
  closed := blockRestTallies_of_rightBrace
  unclosed := blockRestTallies_of_end
  more := blockRestTallies_of_statement

/-- Outside all blocks the reports so far and those to come are for braces that stay open. -/
theorem missingBraces_program_le {c : Cursor} {reported : Nat} (h : Next unclosed reported c)
    (hOutside : c.depth = 0) :
    reported + missingBraces (program c).diagnostics ≤ unclosed := by
  induction c using program.induct generalizing reported with
  | case1 c hEnd =>
    have hReported : reported ≤ unclosed := by
      rcases h with ⟨rfl, -⟩ | hEnded
      · exact Nat.zero_le _
      · exact Nat.le_trans (Nat.le_add_right _ _) hEnded.depth
    rw [program_of_end hEnd]
    exact hReported
  | case2 c hEnd ih =>
    obtain ⟨rfl, hBefore⟩ := h.resolve_right fun hEnded => hEnd hEnded.current_kind
    have hStatement := (tallies_cases unclosed).all.1 c hBefore
    cases hValue : (statement c).value with
    | some s =>
      obtain ⟨hNone, hNext⟩ := hStatement.found s hValue
      have hRest := ih _ (statement c).remaining_le (.inl ⟨rfl, hNext⟩)
        ((depth_statement c).trans hOutside)
      rw [program_of_some hEnd hValue, Step.diagnostics_bind, missingBraces_append, hNone,
        Nat.zero_add]
      exact hRest
    | none =>
      have hOnward := (recovered (hStatement.lost hValue)).2
        (value_recover_of_outside ((depth_statement c).trans hOutside))
      have hRest := ih _ c.remaining_stopped_le hOnward (c.depth_stopped.trans hOutside)
      rw [(program_of_onward hEnd hValue).2, missingBraces_append]
      omega

end Unclosed

/-! ## Unclosed blocks of a text -/

/-- No more closing braces are reported as missing than opening braces stay open. -/
theorem missingBraces_parse_le_excess {ts : List Token} (hPlain : ∀ t ∈ ts, t.kind ≠ .endOfInput)
    (hParts : ∀ part, part <+: ts → closing part ≤ opening part) :
    missingBraces (parse ts).diagnostics ≤ opening ts - closing ts := by
  have hBefore : Unclosed.Before (opening ts - closing ts) 0 (.start ts) :=
    { plain := hPlain
      leaves := .of_prefixes hParts
      fresh := fresh_start ts }
  have hLe := Unclosed.missingBraces_program_le (.inl ⟨rfl, hBefore⟩) rfl
  rwa [Nat.zero_add] at hLe

/-- A block ends on the partner of its opening brace, if the brace stands in a balanced text. -/
theorem Cursor.block_ends_on_partner {ts : List Token} {c : Cursor}
    (hPlain : ∀ t ∈ ts, t.kind ≠ .endOfInput) (hBalanced : Balanced ts) (hTokens : c.tokens <:+ ts)
    (hOpen : c.current.kind = .leftBrace) (hSettled : c.Settled) :
    ∃ body closed rest, c.tokens.tail = body ++ closed :: rest ∧ Balanced body ∧
      closed.kind = .rightBrace ∧ (block c).value.isSome ∧
      (block c).cursor.tokens = closed :: rest := by
  obtain ⟨front, rfl⟩ := hTokens
  have hCons := tokens_eq_cons (c := c) (by rw [hOpen]; decide)
  rw [hCons] at hPlain hBalanced
  obtain ⟨body, closed, rest, hTail, hClosed, hBody⟩ := hBalanced.exists_partner hOpen
  rw [hTail] at hCons hPlain
  have hPlainBody : ∀ t ∈ body, t.kind ≠ .endOfInput := fun t ht =>
    hPlain t (List.mem_append_right _ (List.mem_cons_of_mem _ (List.mem_append_left _ ht)))
  obtain ⟨c', hBlock, hRest, -⟩ := block_succeeds hPlainBody hBody hClosed hCons hSettled
  refine ⟨body, closed, rest, hTail, hBody, hClosed, ?_, ?_⟩
  · rw [hBlock.value]
    rfl
  · rw [hBlock.cursor]
    exact hRest

/-- In a text no prefix of which closes more braces than it opens, however malformed it is
otherwise, a closing brace is reported as missing at most as often as an opening brace stays open:
never in a balanced text. There every block ends on the partner of its opening brace. -/
theorem missingBraces_parse_le {ts : List Token} (hPlain : ∀ t ∈ ts, t.kind ≠ .endOfInput)
    (hParts : ∀ part, part <+: ts → closing part ≤ opening part) :
    (parse ts).diagnostics.countP Diagnostic.isMissingBrace ≤ opening ts - closing ts ∧
    (Balanced ts →
      (∀ found, .expectedToken .rightBrace found ∉ (parse ts).diagnostics) ∧
      ∀ c : Cursor, c.tokens <:+ ts → c.current.kind = .leftBrace → c.Settled →
        ∃ body closed rest, c.tokens.tail = body ++ closed :: rest ∧ Balanced body ∧
          closed.kind = .rightBrace ∧ (block c).value.isSome ∧
          (block c).cursor.tokens = closed :: rest) := by
  have hLe := missingBraces_parse_le_excess hPlain hParts
  refine ⟨hLe, fun hBalanced => ⟨fun found hFound => ?_, fun c hTokens hOpen hSettled => ?_⟩⟩
  · rw [hBalanced.2, Nat.sub_self, Nat.le_zero, missingBraces, List.countP_eq_zero] at hLe
    exact hLe _ hFound rfl
  · exact Cursor.block_ends_on_partner hPlain hBalanced hTokens hOpen hSettled

/-- `if (a) { let = ; if (b) { x` leaves two braces open, and both blocks are reported. In
`if (a { b } ; if (c) { let }` the second brace opens a block, which ends on the last token. -/
theorem missingBraces_parse_le_two :
    let front : List Token := [⟨.ifWord, "if"⟩, ⟨.leftParen, "("⟩, ⟨.identifier, "a"⟩,
      ⟨.rightParen, ")"⟩, ⟨.leftBrace, "\x7b"⟩, ⟨.letWord, "let"⟩, ⟨.assign, "="⟩,
      ⟨.semicolon, ";"⟩, ⟨.ifWord, "if"⟩, ⟨.leftParen, "("⟩, ⟨.identifier, "b"⟩,
      ⟨.rightParen, ")"⟩, ⟨.leftBrace, "\x7b"⟩, ⟨.identifier, "x"⟩]
    let block : List Token := [⟨.leftBrace, "\x7b"⟩, ⟨.letWord, "let"⟩, ⟨.rightBrace, "\x7d"⟩]
    let balanced : List Token := [⟨.ifWord, "if"⟩, ⟨.leftParen, "("⟩, ⟨.identifier, "a"⟩,
      ⟨.leftBrace, "\x7b"⟩, ⟨.identifier, "b"⟩, ⟨.rightBrace, "\x7d"⟩, ⟨.semicolon, ";"⟩,
      ⟨.ifWord, "if"⟩, ⟨.leftParen, "("⟩, ⟨.identifier, "c"⟩, ⟨.rightParen, ")"⟩] ++ block
    let c : Cursor := ⟨block, 11, 0, none⟩
    ((∀ part, part <+: front → closing part ≤ opening part) ∧
      (parse front).diagnostics.countP Diagnostic.isMissingBrace = 2 ∧
      (parse front).diagnostics.countP Diagnostic.isMissingBrace ≤ opening front - closing front) ∧
    Balanced balanced ∧ c.tokens <:+ balanced ∧ c.Settled ∧
      (∀ found, .expectedToken .rightBrace found ∉ (parse balanced).diagnostics) ∧
      (Cursor.block c).value.isSome := by
  intro front block balanced c
  have hClosed : Balanced (front ++ [⟨.rightBrace, "\x7d"⟩, ⟨.rightBrace, "\x7d"⟩]) :=
    closes_zero_iff_balanced.mp (by simp [front, nestingAfter])
  have hParts : ∀ part, part <+: front → closing part ≤ opening part := fun part hPart =>
    hClosed.1 part (hPart.trans (List.prefix_append _ _))
  have hBalanced : Balanced balanced :=
    closes_zero_iff_balanced.mp (by simp [balanced, block, nestingAfter])
  have hSettled : c.Settled := fun p hp => nomatch hp
  obtain ⟨hNone, hBlocks⟩ := (missingBraces_parse_le (by decide) hBalanced.1).2 hBalanced
  obtain ⟨body, closed, rest, -, -, -, hSome, -⟩ :=
    hBlocks c (List.suffix_append _ _) rfl hSettled
  exact ⟨⟨hParts, by decide +kernel, (missingBraces_parse_le (by decide) hParts).1⟩, hBalanced,
    List.suffix_append _ _, hSettled, hNone, hSome⟩

end MonkeyLang
