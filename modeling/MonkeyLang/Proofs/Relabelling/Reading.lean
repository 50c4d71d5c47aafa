import MonkeyLang.Proofs.Reading.Induction
import MonkeyLang.Proofs.Relabelling

/-!
# The text of a token does not decide anything

All functions that read are uniform: with other texts, those of numbers excepted, they read the
same tree but for its texts and report the same, also where statements are malformed and are
dropped. The tree they have in common is a traced one, so the literal of each statement is known to
come from the token that the statement starts with.

* `uniform_cases` collects the cases for the induction over reading.
* `parse_relabel` : a program.
-/

namespace MonkeyLang

open Cursor TracedStatement

/-- The alternatives, where there is one, remember actual starts. -/
def AlternativeSourcedIn (tokens : List Token) (other : Option (List TracedStatement)) : Prop :=
  ∀ ss, other = some ss → AllSourcedIn tokens ss

namespace TracedExpr

/-- A conditional is spelled part by part. -/
theorem spell_conditional (f : String → String) (test : TracedExpr) (ss : List TracedStatement)
    (other : Option (List TracedStatement)) :
    (conditional test ss other).spell f =
      .conditional (test.spell f) (spellAll f ss) (other.map (spellAll f)) := by
  cases other with
  | none => rw [spell, Option.map_none]
  | some ss' => rw [spell, Option.map_some]

theorem sourcedIn_conditional {tokens : List Token} {test : TracedExpr}
    {ss : List TracedStatement} {other : Option (List TracedStatement)}
    (hTest : test.SourcedIn tokens) (hBlock : AllSourcedIn tokens ss)
    (hOther : AlternativeSourcedIn tokens other) :
    (conditional test ss other).SourcedIn tokens := by
  cases other with
  | none =>
    rw [SourcedIn]
    exact ⟨hTest, hBlock⟩
  | some ss' =>
    rw [SourcedIn]
    exact ⟨hTest, hBlock, hOther ss' rfl⟩

end TracedExpr

/-- A token that is an operand by itself is one with any other text. -/
theorem Token.IsOperand.exists_traced {t : Token} {e : Expr} (h : t.IsOperand e)
    (tokens : List Token) :
    ∃ e' : TracedExpr, e'.SourcedIn tokens ∧ ∀ f, (t.relabel f).IsOperand (e'.spell f) := by
  cases h with
  | identifier hKind =>
    refine ⟨.identifier t.literal, trivial, fun f => ?_⟩
    rw [relabel_of_ne (by rw [hKind]; decide)]
    exact .identifier hKind
  | @integer value hKind hValue =>
    refine ⟨.integer value, trivial, fun f => ?_⟩
    rw [relabel_of_integer hKind]
    exact .integer hKind hValue
  | trueWord hKind => exact ⟨.boolean true, trivial, fun f => .trueWord (by simp [hKind])⟩
  | falseWord hKind => exact ⟨.boolean false, trivial, fun f => .falseWord (by simp [hKind])⟩

namespace Cursor

/-! ## Statements about the functions that read -/

section motives

variable (tokens : List Token)

/-- One traced statement gives what is read under every change of the literals. -/
def StatementUniform (c : Cursor) : Prop :=
  c.tokens <:+ tokens → ∀ d, c.Relabels d →
    Uniform c spell (fun s _ => s.SourcedIn tokens) fun f => statement (d f)

/-- One traced expression gives what is read under every change of the literals. -/
def ExpressionUniform (limit : Precedence) (c : Cursor) : Prop :=
  c.tokens <:+ tokens → ∀ d, c.Relabels d →
    Uniform c TracedExpr.spell (fun e _ => e.SourcedIn tokens) fun f => expression limit (d f)

/-- The expression on the left has been read already, so it is given as a traced tree too. -/
def OperatorsUniform (limit : Precedence) (_left : Expr) (c : Cursor) : Prop :=
  ∀ left : TracedExpr, left.SourcedIn tokens → c.tokens <:+ tokens → ∀ d, c.Relabels d →
    Uniform c TracedExpr.spell (fun e _ => e.SourcedIn tokens)
      fun f => operators limit (left.spell f) (d f)

/-- One traced operand gives what is read under every change of the literals. -/
def OperandUniform (c : Cursor) : Prop :=
  c.tokens <:+ tokens → ∀ d, c.Relabels d →
    Uniform c TracedExpr.spell (fun e _ => e.SourcedIn tokens) fun f => operand (d f)

/-- One traced alternative, or none, gives what is read under every change of the literals. -/
def AlternativeUniform (c : Cursor) : Prop :=
  c.tokens <:+ tokens → ∀ d, c.Relabels d →
    Uniform c (fun f => Option.map (spellAll f)) (fun other _ => AlternativeSourcedIn tokens other)
      fun f => alternative (d f)

/-- The traced statements of a block give what is read under every change of the literals. -/
def BlockUniform (c : Cursor) : Prop :=
  c.tokens <:+ tokens → ∀ d, c.Relabels d →
    Uniform c spellAll (fun ss _ => AllSourcedIn tokens ss) fun f => block (d f)

/-- The traced statements left in a block give what is read under every change of the literals. -/
def BlockRestUniform (c : Cursor) : Prop :=
  c.tokens <:+ tokens → ∀ d, c.Relabels d →
    Uniform c spellAll (fun ss _ => AllSourcedIn tokens ss) fun f => blockRest (d f)

end motives

variable {tokens : List Token} {c : Cursor}

/-! ## Operands -/

theorem operandUniform_of_isOperand {e : Expr} (h : c.current.IsOperand e) :
    OperandUniform tokens c := by
  intro _ d hd
  obtain ⟨e', hSourced, hOperand⟩ := h.exists_traced tokens
  have hCurrent := hd.current h.kind_ne_endOfInput
  refine .of_eq (fun f => ?_) (.stay e' hd hSourced)
  exact operand_of_isOperand (hCurrent f ▸ hOperand f)

theorem operandUniform_of_bad_integer (hKind : c.current.kind = .integer)
    (hValue : Integer.ofText? c.current.literal = none) : OperandUniform tokens c := by
  intro _ d hd
  refine .of_eq (fun f => ?_) (.fail (.invalidInteger c.current.literal) hd)
  have hCurrent : (d f).current = c.current := by
    rw [hd.current (by rw [hKind]; decide) f, Token.relabel_of_integer hKind]
  rw [operand_of_bad_integer (hCurrent ▸ hKind) (hCurrent ▸ hValue), hCurrent]

theorem operandUniform_of_unary (op : UnaryOperator)
    (hOp : UnaryOperator.ofKind? c.current.kind = some op)
    (ih : ExpressionUniform tokens .unary c.advance) : OperandUniform tokens c := by
  intro hIn d hd
  refine .of_eq (fun f => operand_of_unary op ((congrArg _ (hd.kind_current f)).trans hOp)) ?_
  exact .advancing (.mapValue (.unary op) (ih (suffix_advance hIn) _ hd.advance)
    (fun f e => rfl) fun e _ he => he)

theorem operandUniform_of_leftParen (hKind : c.current.kind = .leftParen)
    (ih : ExpressionUniform tokens .lowest c.advance) : OperandUniform tokens c := by
  intro hIn d hd
  refine .of_eq (fun f => operand_of_leftParen ((hd.kind_current f).trans hKind)) ?_
  refine .advancing (.andThen (ih (suffix_advance hIn) _ hd.advance) ?_)
  intro inner c₁ hInner _ d₁ hd₁ _
  exact .mapValue (fun _ => inner) (.expect .rightParen hd₁) (fun _ _ => rfl) fun _ _ _ => hInner

theorem operandUniform_of_ifWord (hKind : c.current.kind = .ifWord)
    (ihTest : ∀ c' : Cursor, c'.remaining ≤ c.remaining →
      ExpressionUniform tokens .lowest c'.advance)
    (ihBlock : ∀ c' : Cursor, c'.remaining ≤ c.remaining →
      ∀ c'' : Cursor, c''.remaining ≤ c'.advance.remaining → BlockUniform tokens c'')
    (ihOther : ∀ c' : Cursor, c'.remaining ≤ c.remaining →
      ∀ c'' : Cursor, c''.remaining ≤ c'.advance.remaining → AlternativeUniform tokens c'') :
    OperandUniform tokens c := by
  intro hIn d hd
  refine .of_eq (fun f => operand_of_ifWord ((hd.kind_current f).trans hKind)) ?_
  refine .andThen (.expect .leftParen hd) ?_
  intro _ c₁ _ h₁ d₁ hd₁ _
  have hIn₁ := h₁.trans hIn
  refine .advancing (.andThen (ihTest c₁ h₁.length_le (suffix_advance hIn₁) _ hd₁.advance) ?_)
  intro test c₂ hTest h₂ d₂ hd₂ _
  refine .andThen (.expect .rightParen hd₂) ?_
  intro _ c₃ _ h₃ d₃ hd₃ _
  refine .andThen (.expect .leftBrace hd₃) ?_
  intro _ c₄ _ h₄ d₄ hd₄ _
  have h₄₁ := (h₄.trans h₃).trans h₂
  have hIn₄ := h₄₁.trans (suffix_advance hIn₁)
  refine .andThen (ihBlock c₁ h₁.length_le c₄ h₄₁.length_le hIn₄ d₄ hd₄) ?_
  intro consequence c₅ hBlock h₅ d₅ hd₅ _
  refine .mapValue (.conditional test consequence)
    (ihOther c₁ h₁.length_le c₅ (h₅.trans h₄₁).length_le (h₅.trans hIn₄) d₅ hd₅) ?_ ?_
  · exact fun f other => (TracedExpr.spell_conditional f test consequence other).symm
  · exact fun other _ hOther => TracedExpr.sourcedIn_conditional hTest hBlock hOther

theorem operandUniform_of_not_startsOperand (hKind : c.current.kind.startsOperand = false) :
    OperandUniform tokens c := by
  intro _ d hd
  refine .of_eq (fun f => ?_) (.fail (.noOperand c.current.kind) hd)
  rw [operand_of_not_startsOperand (by rwa [hd.kind_current f]), hd.kind_current f]

/-! ## Expressions -/

theorem expressionUniform_of_operand {limit : Precedence} (ihOperand : OperandUniform tokens c)
    (ihRest : ∀ (left : Expr) (c' : Cursor), c'.remaining ≤ c.remaining →
      OperatorsUniform tokens limit left c') :
    ExpressionUniform tokens limit c := by
  intro hIn d hd
  refine .of_eq (fun f => by rw [expression]) (.andThen (ihOperand hIn d hd) ?_)
  intro left c' hLeft h' d' hd' _
  exact ihRest (left.spell id) c' h'.length_le left hLeft (h'.trans hIn) d' hd'

theorem operatorsUniform_of_stronger {limit : Precedence} {left : Expr} {op : BinaryOperator}
    (hOp : BinaryOperator.ofKind? c.upcoming.kind = some op) (hLimit : limit < op.precedence)
    (ihRight : ExpressionUniform tokens op.precedence c.advance.advance)
    (ihRest : ∀ (right : Expr) (c' : Cursor), c'.remaining ≤ c.advance.advance.remaining →
      OperatorsUniform tokens limit (.binary op left right) c') :
    OperatorsUniform tokens limit left c := by
  intro left' hLeft hIn d hd
  refine .of_eq (fun f => operators_of_stronger ((congrArg _ (hd.kind_upcoming f)).trans hOp)
    hLimit) ?_
  have hIn' := suffix_advance (suffix_advance hIn)
  refine .advancing (.advancing (.andThen (ihRight hIn' _ hd.advance.advance) ?_))
  intro right c' hRight h' d' hd' _
  exact ihRest (right.spell id) c' h'.length_le (.binary op left' right) ⟨hLeft, hRight⟩
    (h'.trans hIn') d' hd'

theorem operatorsUniform_of_stops {limit : Precedence} {left : Expr} (hStops : c.Stops limit) :
    OperatorsUniform tokens limit left c := by
  intro left' hLeft _ d hd
  refine .of_eq (fun f => operators_of_stops fun op hOp => hStops op ?_) (.stay left' hd hLeft)
  rwa [hd.kind_upcoming f] at hOp

/-! ## Blocks -/

theorem alternativeUniform_of_elseWord (hElse : c.upcoming.kind = .elseWord)
    (ih : ∀ c' : Cursor, c'.remaining ≤ c.advance.remaining → BlockUniform tokens c') :
    AlternativeUniform tokens c := by
  intro hIn d hd
  refine .of_eq (fun f => by rw [alternative, if_pos ((hd.kind_upcoming f).trans hElse)]) ?_
  refine .advancing (.andThen (.expect .leftBrace hd.advance) ?_)
  intro _ c' _ h' d' hd' _
  refine .mapValue some (ih c' h'.length_le (h'.trans (suffix_advance hIn)) d' hd')
    (fun f ss => rfl) ?_
  rintro ss _ hBlock _ ⟨⟩
  exact hBlock

theorem alternativeUniform_of_ne (hElse : c.upcoming.kind ≠ .elseWord) :
    AlternativeUniform tokens c := by
  intro _ d hd
  refine .of_eq (fun f => ?_) (.stay none hd nofun)
  rw [alternative, if_neg (by rwa [hd.kind_upcoming f])]
  rfl

theorem blockUniform_of_rest (ih : BlockRestUniform tokens c.enterBlock) :
    BlockUniform tokens c := by
  intro hIn d hd
  refine .of_eq (fun f => by rw [block]) ?_
  exact .inBlock (ih (suffix_advance hIn) _ hd.enterBlock)

theorem uniform_closeBlock {d : (String → String) → Cursor} (hd : c.Relabels d) :
    Uniform c spellAll (fun ss _ => AllSourcedIn tokens ss)
      fun f => (.goto (some []) (d f).closeBlock (d f).remaining_closeBlock_le :
        Attempt (d f) (List Statement)) := by
  have hValid : AllSourcedIn tokens [] := trivial
  refine ⟨some [], c.closeBlock, [], ?_, List.suffix_refl _, fun f => ⟨rfl, hd.closeBlock f, rfl⟩⟩
  rintro _ ⟨⟩
  exact hValid

theorem blockRestUniform_of_rightBrace (hBrace : c.current.kind = .rightBrace) :
    BlockRestUniform tokens c := by
  intro _ d hd
  exact .of_eq (fun f => blockRest_of_rightBrace ((hd.kind_current f).trans hBrace))
    (uniform_closeBlock hd)

theorem blockRestUniform_of_end (hEnd : c.current.kind = .endOfInput) :
    BlockRestUniform tokens c := by
  intro _ d hd
  exact .of_eq (fun f => blockRest_of_end ((hd.kind_current f).trans hEnd)) (.fail _ hd)

theorem blockRestUniform_of_statement (hBrace : c.current.kind ≠ .rightBrace)
    (hEnd : c.current.kind ≠ .endOfInput) (ihStatement : StatementUniform tokens c)
    (ihRest : ∀ c' : Cursor, c'.remaining ≤ c.remaining → BlockRestUniform tokens c'.advance) :
    BlockRestUniform tokens c := by
  intro hIn d hd
  refine .of_eq (fun f => by rw [blockRest, if_neg (by rwa [hd.kind_current f]),
    dif_neg (by rwa [hd.kind_current f])]) ?_
  refine .orRecover (ihStatement hIn d hd) ?_ ?_
  · intro s c' hs h' d' hd' _
    exact .advancing (.mapValue (s :: ·)
      (ihRest c' h'.length_le (suffix_advance (h'.trans hIn)) _ hd'.advance)
      (fun f ss => rfl) fun ss _ hss => ⟨hs, hss⟩)
  · intro atBrace c' h' d' hd' _
    cases atBrace with
    | true => exact uniform_closeBlock hd'
    | false =>
      exact .advancing (ihRest c' h'.length_le (suffix_advance (h'.trans hIn)) _ hd'.advance)

/-! ## Statements -/

theorem statementUniform_of_letWord (hKind : c.current.kind = .letWord)
    (ih : ∀ c' : Cursor, c'.remaining ≤ c.remaining →
      ExpressionUniform tokens .lowest c'.advance) :
    StatementUniform tokens c := by
  intro hIn d hd
  refine .of_eq (fun f => statement_of_letWord ((hd.kind_current f).trans hKind)) ?_
  refine .andThen (.expect .identifier hd) ?_
  intro _ c₁ hName h₁ d₁ hd₁ _
  refine .andThen (.expect .assign hd₁) ?_
  intro _ c₂ _ h₂ d₂ hd₂ _
  have h₂₀ := h₂.trans h₁
  refine .advancing (.andThen (ih c₂ h₂₀.length_le (suffix_advance (h₂₀.trans hIn)) _
    hd₂.advance) ?_)
  intro value c₃ hValue _ d₃ hd₃ _
  refine .endStatement (b := .binding c₁.current.literal value) hd₃ (fun f => ?_) hValue
  rw [hd₁.current (by rw [hName]; decide) f, Token.relabel_of_ne (by rw [hName]; decide), spell]

theorem statementUniform_of_returnWord (hKind : c.current.kind = .returnWord)
    (ih : ExpressionUniform tokens .lowest c.advance) : StatementUniform tokens c := by
  intro hIn d hd
  refine .of_eq (fun f => statement_of_returnWord ((hd.kind_current f).trans hKind)) ?_
  refine .advancing (.andThen (ih (suffix_advance hIn) _ hd.advance) ?_)
  intro value c' hValue _ d' hd' _
  exact .endStatement (b := .returning value) hd' (fun f => by rw [spell]) hValue

theorem current_ne_of_value_expression {limit : Precedence} {e : Expr}
    (h : (expression limit c).value = some e) : c.current.kind ≠ .endOfInput := by
  intro hEnd
  have hNone : (operand c).value = none := by
    rw [operand_of_not_startsOperand (by rw [hEnd]; rfl), Step.value_fail]
  rw [expression, Attempt.andThen_of_none hNone] at h
  cases h

/-- The statement that an expression makes remembers the literal of its first token. -/
theorem value_statement_of_expression (hLet : c.current.kind ≠ .letWord)
    (hReturn : c.current.kind ≠ .returnWord) {e : Expr}
    (h : (expression .lowest c).value = some e) :
    (statement c).value = some (.expression c.current.literal e) := by
  rw [statement_of_expression hLet hReturn, Attempt.andThen_of_some h, Step.value_bind,
    endStatement]
  split
  · rfl
  · rfl

theorem statementUniform_of_expression (hLet : c.current.kind ≠ .letWord)
    (hReturn : c.current.kind ≠ .returnWord) (ih : ExpressionUniform tokens .lowest c) :
    StatementUniform tokens c := by
  intro hIn d hd
  refine .of_eq (fun f => statement_of_expression (by rwa [hd.kind_current f])
    (by rwa [hd.kind_current f])) ?_
  refine .andThen (ih hIn d hd).withValue ?_
  rintro value c' ⟨hValue, hSome⟩ _ d' hd' _
  rw [hd id, relabel_id] at hSome
  refine .endStatement (b := .expression c value) hd' (fun f => ?_)
    ⟨⟨hIn, value_statement_of_expression hLet hReturn hSome⟩, hValue⟩
  rw [hd.current (current_ne_of_value_expression hSome) f, spell]

/-! ## The induction -/

/-- Each function that reads is uniform if the functions it calls are. -/
theorem uniform_cases (tokens : List Token) :
    ReadingCases (StatementUniform tokens) (ExpressionUniform tokens) (OperatorsUniform tokens)
      (OperandUniform tokens) (AlternativeUniform tokens) (BlockUniform tokens)
      (BlockRestUniform tokens) where
  binding := statementUniform_of_letWord
  returning := statementUniform_of_returnWord
  expressionStatement := statementUniform_of_expression
  expression := expressionUniform_of_operand
  stronger := operatorsUniform_of_stronger
  stops := operatorsUniform_of_stops
  single := operandUniform_of_isOperand
  badInteger := operandUniform_of_bad_integer
  unary := operandUniform_of_unary
  group := operandUniform_of_leftParen
  conditional := operandUniform_of_ifWord
  noOperand := operandUniform_of_not_startsOperand
  alternative := alternativeUniform_of_elseWord
  noAlternative := alternativeUniform_of_ne
  block := blockUniform_of_rest
  closed := blockRestUniform_of_rightBrace
  unclosed := blockRestUniform_of_end
  more := blockRestUniform_of_statement

/-- Programs are uniform. -/
theorem exists_traced_program (c : Cursor) (hIn : c.tokens <:+ tokens) :
    ∃ (traced : List TracedStatement) (ds : List Diagnostic), AllSourcedIn tokens traced ∧
      ∀ f, (program (c.relabel f)).value = spellAll f traced ∧
        (program (c.relabel f)).diagnostics = ds := by
  induction c using program.induct with
  | case1 c hEnd =>
    refine ⟨[], [], trivial, fun f => ?_⟩
    rw [program_of_end ((kind_current_relabel f c).trans hEnd)]
    exact ⟨rfl, rfl⟩
  | case2 c hEnd ih =>
    obtain ⟨v, c', ds, hSourced, hSuffix, hEnds⟩ :=
      (uniform_cases tokens).all.1 c hIn (fun f => c.relabel f) fun _ => rfl
    have hEndAbove : ∀ f, (c.relabel f).current.kind ≠ .endOfInput := by
      intro f
      rwa [kind_current_relabel]
    cases v with
    | some s =>
      obtain ⟨traced, es, hTraced, hRest⟩ :=
        ih c' hSuffix.length_le (suffix_advance (hSuffix.trans hIn))
      refine ⟨s :: traced, ds ++ es, ⟨hSourced s rfl, hTraced⟩, fun f => ?_⟩
      have hNext : (statement (c.relabel f)).cursor.advance = c'.advance.relabel f := by
        rw [(hEnds f).cursor, advance_relabel]
      obtain ⟨hValue, hDiagnostics⟩ := hRest f
      rw [← hNext] at hValue hDiagnostics
      rw [program_of_some (hEndAbove f) (hEnds f).value]
      refine ⟨congrArg (s.spell f :: ·) hValue, ?_⟩
      rw [Step.diagnostics_bind, (hEnds f).diagnostics]
      exact congrArg (ds ++ ·) hDiagnostics
    | none =>
      have hSkipped := suffix_skipStatement 0 c'
      obtain ⟨traced, es, hTraced, hRest⟩ := ih c'.recover.cursor
        (hSkipped.trans hSuffix).length_le (suffix_advance ((hSkipped.trans hSuffix).trans hIn))
      refine ⟨traced, ds ++ es, hTraced, fun f => ?_⟩
      have hNext : (c.relabel f).stopped.advance = c'.recover.cursor.advance.relabel f := by
        rw [stopped, (hEnds f).cursor, (recover_relabel f c').2, advance_relabel]
      obtain ⟨hValue, hDiagnostics⟩ := program_of_onward (hEndAbove f) (hEnds f).value
      rw [hValue, hDiagnostics, hNext, (hEnds f).diagnostics, (hRest f).1, (hRest f).2]
      exact ⟨rfl, rfl⟩

end Cursor

/-- Apart from numbers, the text of a token does not decide anything. Whatever else the texts are
replaced with, the same is reported, and the result is the same but for its texts: all names are
replaced, and so is the literal of each expression statement unless its first token, which the
traced tree remembers, is a number. -/
theorem parse_relabel (tokens : List Token) :
    ∃ traced : List TracedStatement, AllSourcedIn tokens traced ∧
      (parse tokens).value = spellAll id traced ∧
      ∀ f, (parse (tokens.map (Token.relabel f))).value = spellAll f traced ∧
        (parse (tokens.map (Token.relabel f))).diagnostics = (parse tokens).diagnostics := by
  obtain ⟨traced, ds, hTraced, hProgram⟩ :=
    exists_traced_program (.start tokens) (List.suffix_refl tokens)
  have hSame := hProgram id
  rw [relabel_id] at hSame
  exact ⟨traced, hTraced, hSame.1, fun f => ⟨(hProgram f).1, (hProgram f).2.trans hSame.2.symm⟩⟩

/-- A number keeps its text as the first token of a statement, a parenthesis does not. -/
example :
    let tokens : List Token := [⟨.integer, "5"⟩, ⟨.semicolon, ";"⟩, ⟨.leftParen, "("⟩,
      ⟨.integer, "5"⟩, ⟨.rightParen, ")"⟩]
    (parse (tokens.map (Token.relabel fun _ => "x"))).value =
      [.expression "5" (.integer 5), .expression "x" (.integer 5)] := by
  decide +kernel

end MonkeyLang
