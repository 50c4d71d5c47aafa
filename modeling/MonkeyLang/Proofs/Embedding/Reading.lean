import MonkeyLang.Proofs.Embedding.Agreement
import MonkeyLang.Proofs.Invariant

/-!
# Reading a part of a text

Whatever is read in the part is read in the larger text in the same way, well formed or not.
Each function that reads has its own statement; an expression ends on its last token, a
statement where the next one may begin, and what is malformed breaks off at the same token.

* `Embedding.agree_cases` collects the cases for the induction over reading.
* `Embedding.At.agrees_statement` : statements, from where both cursors stand before one.
-/

namespace MonkeyLang

open Cursor

namespace Embedding

/-- A statement of the part is followed by the same place in both texts. -/
def StatementAgrees (E : Embedding) (a : Cursor) : Prop :=
  ∀ b, E.At 0 a b → a.current.kind ≠ .endOfInput →
    E.Agrees (fun a' b' => E.Between a'.advance b'.advance) (E.Stuck 0) (statement a) (statement b)

/-- An expression of the part ends on the same token in both texts. -/
def ExpressionAgrees (E : Embedding) (limit : Precedence) (a : Cursor) : Prop :=
  ∀ b, E.At 0 a b → E.Agrees E.Behind (E.Stuck 0) (expression limit a) (expression limit b)

/-- The same operators continue an expression that ends on the same token in both texts. -/
def OperatorsAgree (E : Embedding) (limit : Precedence) (left : Expr) (a : Cursor) : Prop :=
  ∀ b, E.Behind a b →
    E.Agrees E.Behind (E.Stuck 0) (operators limit left a) (operators limit left b)

/-- An operand of the part ends on the same token in both texts. -/
def OperandAgrees (E : Embedding) (a : Cursor) : Prop :=
  ∀ b, E.At 0 a b → E.Agrees E.Behind (E.Stuck 0) (operand a) (operand b)

/-- An alternative stands behind the same token in both texts, or in neither of them. -/
def AlternativeAgrees (E : Embedding) (a : Cursor) : Prop :=
  ∀ b, E.Behind a b → E.Agrees E.Behind (E.Stuck 0) (alternative a) (alternative b)

/-- A block of the part ends on the same brace in both texts, and both cursors have left it. -/
def BlockAgrees (E : Embedding) (a : Cursor) : Prop :=
  ∀ b, E.At 0 a b → a.current.kind = .leftBrace →
    E.Agrees E.Behind (E.Stuck 0) (block a) (block b)

/-- The rest of a block is compared after leaving the block. -/
def BlockRestAgrees (E : Embedding) (a : Cursor) : Prop :=
  ∀ b, E.At 0 a b → 0 < a.depth →
    E.Agrees (fun a' b' => E.Behind a'.leaveBlock b'.leaveBlock)
      (fun a' b' => E.Stuck 0 a'.leaveBlock b'.leaveBlock) (blockRest a) (blockRest b)

variable {E : Embedding} {a : Cursor}

/-! ## Operands -/

theorem operandAgrees_of_isOperand {e : Expr} (h : a.current.IsOperand e) :
    E.OperandAgrees a := by
  intro b hAt
  have hCurrent := hAt.current_eq h.kind_ne_endOfInput
  have hBehind : E.Behind a b := by
    cases h with
    | identifier hKind | integer hKind _ | trueWord hKind | falseWord hKind =>
      exact hAt.behind_of_kind hKind
  rw [operand_of_isOperand h, operand_of_isOperand (hCurrent ▸ h)]
  exact .stay e hBehind

theorem operandAgrees_of_bad_integer (hKind : a.current.kind = .integer)
    (hValue : Integer.ofText? a.current.literal = none) : E.OperandAgrees a := by
  intro b h
  have hCurrent := h.current_eq (by rw [hKind]; decide)
  rw [operand_of_bad_integer hKind hValue,
    operand_of_bad_integer (hCurrent ▸ hKind) (hCurrent ▸ hValue), hCurrent]
  exact .fail rfl (.inl h)

theorem operandAgrees_of_unary (op : UnaryOperator)
    (hOp : UnaryOperator.ofKind? a.current.kind = some op)
    (ih : E.ExpressionAgrees .unary a.advance) : E.OperandAgrees a := by
  intro b h
  have hKind := UnaryOperator.ofKind?_eq_some_iff.mp hOp
  have hOpAbove : UnaryOperator.ofKind? b.current.kind = some op := by
    rw [h.current_kind_of_kind hKind (by cases op <;> decide)]
    exact UnaryOperator.ofKind?_eq_some_iff.mpr rfl
  have hBehind := h.behind_of_kind hKind (by cases op <;> decide)
  rw [operand_of_unary op hOp, operand_of_unary op hOpAbove]
  exact .advancing (.mapValue _ (ih b.advance hBehind.advance))

theorem operandAgrees_of_leftParen (hKind : a.current.kind = .leftParen)
    (ih : E.ExpressionAgrees .lowest a.advance) : E.OperandAgrees a := by
  intro b h
  rw [operand_of_leftParen hKind, operand_of_leftParen (h.current_kind_of_kind hKind)]
  refine .advancing (.andThen (ih b.advance (h.behind_of_kind hKind).advance) ?_)
  intro inner a₁ b₁ _ _ h₁
  refine .mapValue _ ((h₁.agrees_expect (by decide) (by decide)).mono ?_)
  intro a₂ b₂ h₂
  exact h₂.1.behind_of_kind h₂.2

theorem operandAgrees_of_ifWord (hKind : a.current.kind = .ifWord)
    (ihTest : ∀ a' : Cursor, a'.remaining ≤ a.remaining → E.ExpressionAgrees .lowest a'.advance)
    (ihBlock : ∀ a' : Cursor, a'.remaining ≤ a.remaining →
      ∀ a'' : Cursor, a''.remaining ≤ a'.advance.remaining → E.BlockAgrees a'')
    (ihOther : ∀ a' : Cursor, a'.remaining ≤ a.remaining →
      ∀ a'' : Cursor, a''.remaining ≤ a'.advance.remaining → E.AlternativeAgrees a'') :
    E.OperandAgrees a := by
  intro b h
  rw [operand_of_ifWord hKind, operand_of_ifWord (h.current_kind_of_kind hKind)]
  refine .andThen ((h.behind_of_kind hKind).agrees_expect (by decide) (by decide)) ?_
  intro _ a₁ b₁ ha₁ _ h₁
  obtain ⟨h₁, hKind₁⟩ := h₁
  refine .advancing (.andThen (ihTest a₁ ha₁ b₁.advance (h₁.behind_of_kind hKind₁).advance) ?_)
  intro test a₂ b₂ ha₂ _ h₂
  refine .andThen (h₂.agrees_expect (by decide) (by decide)) ?_
  intro _ a₃ b₃ ha₃ _ h₃
  obtain ⟨h₃, hKind₃⟩ := h₃
  refine .andThen ((h₃.behind_of_kind hKind₃).agrees_expect (by decide) (by decide)) ?_
  intro _ a₄ b₄ ha₄ _ h₄
  obtain ⟨h₄, hKind₄⟩ := h₄
  have hLess := Nat.le_trans ha₄ (Nat.le_trans ha₃ ha₂)
  refine .andThen (ihBlock a₁ ha₁ a₄ hLess b₄ h₄ hKind₄) ?_
  intro consequence a₅ b₅ ha₅ _ h₅
  exact .mapValue _ (ihOther a₁ ha₁ a₅ (Nat.le_trans ha₅ hLess) b₅ h₅)

/-- Where no operand starts in the part, none starts in the larger text. -/
theorem operandAgrees_of_not_startsOperand (hKind : a.current.kind.startsOperand = false) :
    E.OperandAgrees a := by
  intro b h
  have hKindAbove : b.current.kind.startsOperand = false := by
    rw [h.current_kind]
    by_cases hEnd : a.current.kind = .endOfInput
    · rw [hEnd, Token.Kind.replaceEnd_endOfInput]
      rcases E.finish_eq with hFinish | hFinish
      · rw [hFinish]
        rfl
      · rw [hFinish]
        rfl
    · rwa [Token.Kind.replaceEnd_of_ne _ hEnd]
  rw [operand_of_not_startsOperand hKind, operand_of_not_startsOperand hKindAbove]
  refine .fail ?_ (.inl h)
  rw [h.current_kind]
  rfl

/-! ## Expressions -/

theorem expressionAgrees_of_operand {limit : Precedence} (ihOperand : E.OperandAgrees a)
    (ihRest : ∀ (left : Expr) (a' : Cursor), a'.remaining ≤ a.remaining →
      E.OperatorsAgree limit left a') :
    E.ExpressionAgrees limit a := by
  intro b h
  rw [expression, expression]
  exact (ihOperand b h).andThen fun left a' b' ha _ h' => ihRest left a' ha b' h'

theorem operatorsAgree_of_stronger {limit : Precedence} {left : Expr} {op : BinaryOperator}
    (hOp : BinaryOperator.ofKind? a.upcoming.kind = some op) (hLimit : limit < op.precedence)
    (ihRight : E.ExpressionAgrees op.precedence a.advance.advance)
    (ihRest : ∀ (right : Expr) (a' : Cursor), a'.remaining ≤ a.advance.advance.remaining →
      E.OperatorsAgree limit (.binary op left right) a') :
    E.OperatorsAgree limit left a := by
  intro b h
  have hOpAbove := h.ofKind?_upcoming.trans hOp
  have hKind : a.advance.current.kind = op.kind := BinaryOperator.ofKind?_eq_some_iff.mp hOp
  have hOperator := h.advance.behind_of_kind hKind (by cases op <;> decide)
  rw [operators_of_stronger hOp hLimit, operators_of_stronger hOpAbove hLimit]
  refine .advancing (.advancing (.andThen (ihRight b.advance.advance hOperator.advance) ?_))
  intro right a' b' ha _ h'
  exact ihRest right a' ha b' h'

theorem operatorsAgree_of_stops {limit : Precedence} {left : Expr} (hStops : a.Stops limit) :
    E.OperatorsAgree limit left a := by
  intro b h
  have hStopsAbove : b.Stops limit := by
    intro op hOp
    rw [h.ofKind?_upcoming] at hOp
    exact hStops op hOp
  rw [operators_of_stops hStops, operators_of_stops hStopsAbove]
  exact .stay left h

/-! ## Blocks -/

theorem alternativeAgrees_of_elseWord (hElse : a.upcoming.kind = .elseWord)
    (ih : ∀ a' : Cursor, a'.remaining ≤ a.advance.remaining → E.BlockAgrees a') :
    E.AlternativeAgrees a := by
  intro b h
  have hElseAbove : b.upcoming.kind = .elseWord := h.advance.current_kind_of_kind hElse
  have hWord : E.Behind a.advance b.advance := h.advance.behind_of_kind hElse
  rw [alternative, if_pos hElse, alternative, if_pos hElseAbove]
  refine .advancing (.andThen (hWord.agrees_expect (by decide) (by decide)) ?_)
  intro _ a' b' ha _ h'
  exact .mapValue _ (ih a' ha b' h'.1 h'.2)

theorem alternativeAgrees_of_ne (hElse : a.upcoming.kind ≠ .elseWord) :
    E.AlternativeAgrees a := by
  intro b h
  have hElseAbove : b.upcoming.kind ≠ .elseWord := by
    rw [h.upcoming_kind]
    exact mt (replaceEnd_eq_iff (by decide) (by decide)).mp hElse
  rw [alternative, if_neg hElse, alternative, if_neg hElseAbove]
  exact .stay none h

theorem blockAgrees_of_rest (ih : E.BlockRestAgrees a.enterBlock) : E.BlockAgrees a := by
  intro b h hKind
  rw [block, block]
  exact .inBlock (ih b.enterBlock (h.enterBlock hKind) (Nat.succ_pos _))

theorem blockRestAgrees_of_rightBrace (hBrace : a.current.kind = .rightBrace) :
    E.BlockRestAgrees a := by
  intro b h hDepth
  rw [blockRest_of_rightBrace hBrace, blockRest_of_rightBrace (h.current_kind_of_kind hBrace)]
  exact .goto [] _ _ (h.closeBlock hBrace hDepth)

/-- A block that is never closed ends with the whole text. -/
theorem blockRestAgrees_of_end (hEnd : a.current.kind = .endOfInput) : E.BlockRestAgrees a := by
  intro b h hDepth
  have hKindAbove := h.current_kind_of_depth hDepth
  have hFinish : E.finish = .endOfInput := by
    rw [← hEnd, ← hKindAbove, h.current_kind, hEnd]
    rfl
  rw [blockRest_of_end hEnd, blockRest_of_end (hKindAbove.trans hEnd)]
  refine .fail ?_ (.inl (h.leaveBlock hEnd hDepth))
  rw [hFinish]
  rfl

theorem blockRestAgrees_of_statement (hBrace : a.current.kind ≠ .rightBrace)
    (hEnd : a.current.kind ≠ .endOfInput) (ihStatement : E.StatementAgrees a)
    (ihRest : ∀ a' : Cursor, a'.remaining ≤ a.remaining → E.BlockRestAgrees a'.advance) :
    E.BlockRestAgrees a := by
  intro b h hDepth
  have hCurrent := h.current_eq hEnd
  rw [blockRest, if_neg hBrace, dif_neg hEnd, blockRest, if_neg (hCurrent ▸ hBrace),
    dif_neg (hCurrent ▸ hEnd)]
  refine .orRecover (ihStatement b h hEnd) ?_ ?_
  · intro s a' b' ha _ hSame h'
    have hInside : 0 < a'.depth := (hSame.trans (depth_statement a)) ▸ hDepth
    exact .advancing (.mapValue _ (ihRest a' ha b'.advance (h'.at_of_depth hInside) hInside))
  · intro v w a' b' ha _ hSame h'
    have hInside : 0 < a'.depth := (hSame.trans (depth_statement a)) ▸ hDepth
    cases h' with
    | onward hValue hAbove hBetween =>
      subst hValue hAbove
      exact .advancing (ihRest a' ha b'.advance (hBetween.at_of_depth hInside) hInside)
    | ownBrace hValue hAbove hAt hOwn =>
      subst hValue hAbove
      exact .goto [] _ _ (hAt.closeBlock (current_of_atOwnBrace hOwn) hInside)
    | outerBrace _ _ _ _ hZero => omega

/-! ## Statements -/

theorem statementAgrees_of_letWord (hKind : a.current.kind = .letWord)
    (ih : ∀ a' : Cursor, a'.remaining ≤ a.remaining → E.ExpressionAgrees .lowest a'.advance) :
    E.StatementAgrees a := by
  intro b h _
  rw [statement_of_letWord hKind, statement_of_letWord (h.current_kind_of_kind hKind)]
  refine .andThen ((h.behind_of_kind hKind).agrees_expect (by decide) (by decide)) ?_
  intro _ a₁ b₁ ha₁ _ h₁
  obtain ⟨h₁, hKind₁⟩ := h₁
  rw [h₁.current_eq (by rw [hKind₁]; decide)]
  refine .andThen ((h₁.behind_of_kind hKind₁).agrees_expect (by decide) (by decide)) ?_
  intro _ a₂ b₂ ha₂ _ h₂
  obtain ⟨h₂, hKind₂⟩ := h₂
  have hValue := ih a₂ (Nat.le_trans ha₂ ha₁) b₂.advance (h₂.behind_of_kind hKind₂).advance
  exact .advancing (hValue.andThen fun _ _ _ _ _ h₃ => h₃.agrees_endStatement _)

theorem statementAgrees_of_returnWord (hKind : a.current.kind = .returnWord)
    (ih : E.ExpressionAgrees .lowest a.advance) : E.StatementAgrees a := by
  intro b h _
  rw [statement_of_returnWord hKind, statement_of_returnWord (h.current_kind_of_kind hKind)]
  have hValue := ih b.advance (h.behind_of_kind hKind).advance
  exact .advancing (hValue.andThen fun _ _ _ _ _ h' => h'.agrees_endStatement _)

theorem statementAgrees_of_expression (hLet : a.current.kind ≠ .letWord)
    (hReturn : a.current.kind ≠ .returnWord) (ih : E.ExpressionAgrees .lowest a) :
    E.StatementAgrees a := by
  intro b h hEnd
  have hCurrent := h.current_eq hEnd
  rw [statement_of_expression hLet hReturn,
    statement_of_expression (hCurrent ▸ hLet) (hCurrent ▸ hReturn), hCurrent]
  exact (ih b h).andThen fun _ _ _ _ _ h' => h'.agrees_endStatement _

/-! ## The induction -/

/-- Each function that reads agrees in both texts if the functions it calls do. -/
theorem agree_cases (E : Embedding) :
    ReadingCases E.StatementAgrees E.ExpressionAgrees E.OperatorsAgree E.OperandAgrees
      E.AlternativeAgrees E.BlockAgrees E.BlockRestAgrees where
  binding := statementAgrees_of_letWord
  returning := statementAgrees_of_returnWord
  expressionStatement := statementAgrees_of_expression
  expression := expressionAgrees_of_operand
  stronger := operatorsAgree_of_stronger
  stops := operatorsAgree_of_stops
  single := operandAgrees_of_isOperand
  badInteger := operandAgrees_of_bad_integer
  unary := operandAgrees_of_unary
  group := operandAgrees_of_leftParen
  conditional := operandAgrees_of_ifWord
  noOperand := operandAgrees_of_not_startsOperand
  alternative := alternativeAgrees_of_elseWord
  noAlternative := alternativeAgrees_of_ne
  block := blockAgrees_of_rest
  closed := blockRestAgrees_of_rightBrace
  unclosed := blockRestAgrees_of_end
  more := blockRestAgrees_of_statement

/-- A statement of the part is read in the larger text as in the part alone. -/
theorem At.agrees_statement {b : Cursor} (h : E.At 0 a b) (hEnd : a.current.kind ≠ .endOfInput) :
    E.Agrees (fun a' b' => E.Between a'.advance b'.advance) (E.Stuck 0)
      (statement a) (statement b) :=
  E.agree_cases.all.1 a b h hEnd

end Embedding

end MonkeyLang
