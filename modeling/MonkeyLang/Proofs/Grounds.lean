import MonkeyLang.Proofs.Reading.Recovery

/-!
# What a parse takes from its tokens

A parse makes nothing up. Every integer in its result is that of a number among the tokens, also
where statements around it have been given up. Every diagnostic is about one of the tokens or about
the end of input behind them, and there is a reason for it.

* `Expr.integers`, `Statement.integers`, `Statement.integersAll` : the integers in a tree.
* `Integer.OccursIn`, `Diagnostic.About` : where an integer and a diagnostic come from.
* `Attempt.Grounded` : attempts that make nothing up, with one rule for each way to build an
  attempt.
* `grounded_cases` collects the cases for the induction over reading.
* `parse_grounded` : whole parses.
-/

namespace MonkeyLang

open Cursor

/-! ## The integers of a tree -/

mutual

/-- The integers that stand anywhere in an expression. -/
def Expr.integers : Expr → List Integer
  | .integer value => [value]
  | .identifier _ | .boolean _ => []
  | .unary _ right => right.integers
  | .binary _ left right => left.integers ++ right.integers
  | .conditional test consequence none => test.integers ++ Statement.integersAll consequence
  | .conditional test consequence (some alternative) =>
    test.integers ++ (Statement.integersAll consequence ++ Statement.integersAll alternative)

/-- The integers that stand anywhere in a statement. -/
def Statement.integers : Statement → List Integer
  | .binding _ value => value.integers
  | .returning value => value.integers
  | .expression _ value => value.integers

/-- The integers that stand anywhere in a list of statements. -/
def Statement.integersAll : List Statement → List Integer
  | [] => []
  | s :: ss => s.integers ++ Statement.integersAll ss

end

/-! ## Grounds -/

/-- The integer is that of a number among the tokens. -/
def Integer.OccursIn (tokens : List Token) (i : Integer) : Prop :=
  ∃ t ∈ tokens, t.kind = .integer ∧ Integer.ofText? t.literal = some i

/-- All integers in the list are those of numbers among the tokens. -/
def OccurIn (tokens : List Token) (is : List Integer) : Prop :=
  ∀ i ∈ is, Integer.OccursIn tokens i

/-- The diagnostic is about one of the tokens, or about the end of input behind them: it is not the
one that is expected, it starts no expression, or it is a number and its text is that of no
integer. -/
inductive Diagnostic.About (tokens : List Token) : Diagnostic → Prop
  | expectedToken {t} (expected : Token.Kind) (ht : t ∈ tokens ∨ t = Token.finish)
      (h : t.kind ≠ expected) : About tokens (.expectedToken expected t.kind)
  | noOperand {t} (ht : t ∈ tokens ∨ t = Token.finish) (h : t.kind.startsOperand = false) :
      About tokens (.noOperand t.kind)
  | invalidInteger {t} (ht : t ∈ tokens) (hKind : t.kind = .integer)
      (h : Integer.ofText? t.literal = none) : About tokens (.invalidInteger t.literal)

variable {tokens : List Token} {c : Cursor}

theorem occurIn_nil : OccurIn tokens [] := nofun

theorem occurIn_append {is is' : List Integer} :
    OccurIn tokens (is ++ is') ↔ OccurIn tokens is ∧ OccurIn tokens is' :=
  List.forall_mem_append

theorem occurIn_conditional {test : Expr} {consequence : List Statement}
    {alternative : Option (List Statement)} (hTest : OccurIn tokens test.integers)
    (hConsequence : OccurIn tokens (Statement.integersAll consequence))
    (hAlternative : ∀ ss ∈ alternative, OccurIn tokens (Statement.integersAll ss)) :
    OccurIn tokens (Expr.conditional test consequence alternative).integers := by
  cases alternative with
  | none =>
    rw [Expr.integers]
    exact occurIn_append.mpr ⟨hTest, hConsequence⟩
  | some ss =>
    rw [Expr.integers]
    exact occurIn_append.mpr ⟨hTest, occurIn_append.mpr ⟨hConsequence, hAlternative ss rfl⟩⟩

theorem Cursor.current_mem (hIn : c.tokens <:+ tokens) :
    c.current ∈ tokens ∨ c.current = Token.finish := by
  obtain ⟨_ | ⟨t, ts⟩, p, d, l⟩ := c
  · exact Or.inr rfl
  · exact Or.inl (hIn.subset List.mem_cons_self)

theorem Token.IsOperand.occurIn {t : Token} {e : Expr} (h : t.IsOperand e) (ht : t ∈ tokens) :
    OccurIn tokens e.integers := by
  cases h with
  | identifier | trueWord | falseWord => exact occurIn_nil
  | integer hKind hValue =>
    intro i hi
    obtain rfl := List.mem_singleton.mp hi
    exact ⟨t, ht, hKind, hValue⟩

/-! ## Attempts -/

/-- What the attempt reports is about the tokens, and what it yields has the given property. It goes
on from one of them, or from their end. -/
structure Attempt.Grounded {c : Cursor} {α : Type} (tokens : List Token) (V : α → Prop)
    (s : Attempt c α) : Prop where
  value : ∀ v, s.value = some v → V v
  diagnostics : ∀ d ∈ s.diagnostics, d.About tokens
  suffix : s.cursor.tokens <:+ tokens

namespace Attempt.Grounded

variable {α β : Type} {V : α → Prop} {W : β → Prop}

theorem goto {v : α} {c' : Cursor} (hLe : c'.remaining ≤ c.remaining) (hIn : c'.tokens <:+ tokens)
    (h : V v) : Grounded tokens V (.goto (some v) c' hLe : Attempt c α) where
  value := by
    rintro _ ⟨⟩
    exact h
  diagnostics := List.forall_mem_nil _
  suffix := hIn

theorem stay {v : α} (hIn : c.tokens <:+ tokens) (h : V v) :
    Grounded tokens V (.stay (some v) : Attempt c α) :=
  goto (Nat.le_refl _) hIn h

theorem fail {d : Diagnostic} (hIn : c.tokens <:+ tokens) (h : d.About tokens) :
    Grounded tokens V (.fail d : Attempt c α) where
  value := nofun
  diagnostics := List.forall_mem_singleton.mpr h
  suffix := hIn

theorem advancing {s : Attempt c.advance α} (h : Grounded tokens V s) :
    Grounded tokens V (.advancing s : Attempt c α) :=
  ⟨h.value, h.diagnostics, h.suffix⟩

theorem inBlock {s : Attempt c.enterBlock α} (h : Grounded tokens V s) :
    Grounded tokens V (.inBlock s : Attempt c α) :=
  ⟨h.value, h.diagnostics, h.suffix⟩

theorem mapValue {s : Attempt c α} {f : α → β} (h : Grounded tokens V s)
    (hf : ∀ v, V v → W (f v)) : Grounded tokens W (s.mapValue f) where
  value := by
    intro w hw
    obtain ⟨v, hv, rfl⟩ := Option.map_eq_some_iff.mp hw
    exact hf v (h.value v hv)
  diagnostics := h.diagnostics
  suffix := h.suffix

theorem bind {s : Step c α} {f : α → (c' : Cursor) → c'.remaining ≤ c.remaining → Attempt c' β}
    (hs : ∀ d ∈ s.diagnostics, d.About tokens)
    (hf : Grounded tokens W (f s.value s.cursor s.remaining_le)) :
    Grounded tokens W (Step.bind s f : Attempt c β) where
  value := hf.value
  diagnostics := List.forall_mem_append.mpr ⟨hs, hf.diagnostics⟩
  suffix := hf.suffix

theorem andThen {s : Attempt c α}
    {f : α → (c' : Cursor) → c'.remaining ≤ c.remaining → Attempt c' β} (hs : Grounded tokens V s)
    (hf : ∀ v c' h, V v → c'.tokens <:+ tokens → Grounded tokens W (f v c' h)) :
    Grounded tokens W (s.andThen f) := by
  cases hValue : s.value with
  | some v =>
    rw [Attempt.andThen_of_some hValue]
    exact bind hs.diagnostics (hf v _ _ (hs.value v hValue) hs.suffix)
  | none =>
    rw [Attempt.andThen_of_none hValue]
    exact ⟨nofun, hs.diagnostics, hs.suffix⟩

theorem expect (kind : Token.Kind) (hIn : c.tokens <:+ tokens) :
    Grounded tokens (fun _ => True) (c.expect kind) := by
  have hNext : c.advance.tokens <:+ tokens := suffix_advance hIn
  unfold Cursor.expect
  split
  case isTrue => exact goto _ hNext trivial
  case isFalse hOther => exact fail hIn (.expectedToken kind (current_mem hNext) hOther)

theorem endStatement {v : α} (hIn : c.tokens <:+ tokens) (h : V v) :
    Grounded tokens V (c.endStatement v) := by
  unfold Cursor.endStatement
  split
  · exact goto _ (suffix_advance hIn) h
  · exact stay hIn h

end Attempt.Grounded

namespace Cursor

open Attempt (Grounded)

/-! ## Reading -/

section motives

variable (tokens : List Token)

/-- The integers of a statement that is read from a suffix of the tokens occur in the tokens. -/
def StatementGrounded (c : Cursor) : Prop :=
  c.tokens <:+ tokens → Grounded tokens (fun s => OccurIn tokens s.integers) (statement c)

/-- The integers of an expression that is read occur in the tokens. -/
def ExpressionGrounded (limit : Precedence) (c : Cursor) : Prop :=
  c.tokens <:+ tokens → Grounded tokens (fun e => OccurIn tokens e.integers) (expression limit c)

/-- If the integers of the expression on the left occur in the tokens, so do those of the expression
it is continued to. -/
def OperatorsGrounded (limit : Precedence) (left : Expr) (c : Cursor) : Prop :=
  OccurIn tokens left.integers → c.tokens <:+ tokens →
    Grounded tokens (fun e => OccurIn tokens e.integers) (operators limit left c)

/-- The integer of an operand, or the integers in it, occur in the tokens. -/
def OperandGrounded (c : Cursor) : Prop :=
  c.tokens <:+ tokens → Grounded tokens (fun e => OccurIn tokens e.integers) (operand c)

/-- The integers of an alternative, if there is one, occur in the tokens. -/
def AlternativeGrounded (c : Cursor) : Prop :=
  c.tokens <:+ tokens →
    Grounded tokens (fun other => ∀ ss ∈ other, OccurIn tokens (Statement.integersAll ss))
      (alternative c)

/-- The integers of the statements in a block occur in the tokens. -/
def BlockGrounded (c : Cursor) : Prop :=
  c.tokens <:+ tokens →
    Grounded tokens (fun ss => OccurIn tokens (Statement.integersAll ss)) (block c)

/-- The integers of the statements left in a block occur in the tokens. -/
def BlockRestGrounded (c : Cursor) : Prop :=
  c.tokens <:+ tokens →
    Grounded tokens (fun ss => OccurIn tokens (Statement.integersAll ss)) (blockRest c)

end motives

theorem statementGrounded_of_letWord (hKind : c.current.kind = .letWord)
    (ih : ∀ c' : Cursor, c'.remaining ≤ c.remaining →
      ExpressionGrounded tokens .lowest c'.advance) : StatementGrounded tokens c := by
  intro hIn
  rw [statement_of_letWord hKind]
  refine .andThen (.expect .identifier hIn) fun _ c₁ h₁ _ hIn₁ => ?_
  refine .andThen (.expect .assign hIn₁) fun _ c₂ h₂ _ hIn₂ => ?_
  have hValue := ih c₂ (Nat.le_trans h₂ h₁) (suffix_advance hIn₂)
  exact .advancing (.andThen hValue fun _ _ _ h hIn₃ => .endStatement hIn₃ h)

theorem statementGrounded_of_returnWord (hKind : c.current.kind = .returnWord)
    (ih : ExpressionGrounded tokens .lowest c.advance) : StatementGrounded tokens c := by
  intro hIn
  rw [statement_of_returnWord hKind]
  exact .advancing (.andThen (ih (suffix_advance hIn)) fun _ _ _ h hIn' => .endStatement hIn' h)

theorem statementGrounded_of_expression (hLet : c.current.kind ≠ .letWord)
    (hReturn : c.current.kind ≠ .returnWord) (ih : ExpressionGrounded tokens .lowest c) :
    StatementGrounded tokens c := by
  intro hIn
  rw [statement_of_expression hLet hReturn]
  exact .andThen (ih hIn) fun _ _ _ h hIn' => .endStatement hIn' h

theorem expressionGrounded_of_operand {limit : Precedence} (ihOperand : OperandGrounded tokens c)
    (ihRest : ∀ (left : Expr) (c' : Cursor), c'.remaining ≤ c.remaining →
      OperatorsGrounded tokens limit left c') : ExpressionGrounded tokens limit c := by
  intro hIn
  rw [expression]
  exact .andThen (ihOperand hIn) fun left c' h' hLeft hIn' => ihRest left c' h' hLeft hIn'

theorem operatorsGrounded_of_stronger {limit : Precedence} {left : Expr} {op : BinaryOperator}
    (hOp : BinaryOperator.ofKind? c.upcoming.kind = some op) (hLimit : limit < op.precedence)
    (ihRight : ExpressionGrounded tokens op.precedence c.advance.advance)
    (ihRest : ∀ (right : Expr) (c' : Cursor), c'.remaining ≤ c.advance.advance.remaining →
      OperatorsGrounded tokens limit (.binary op left right) c') :
    OperatorsGrounded tokens limit left c := by
  intro hLeft hIn
  rw [operators_of_stronger hOp hLimit]
  have hRight := ihRight (suffix_advance (suffix_advance hIn))
  refine .advancing (.advancing (.andThen hRight fun right c' h' hRight hIn' => ?_))
  exact ihRest right c' h' (occurIn_append.mpr ⟨hLeft, hRight⟩) hIn'

theorem operatorsGrounded_of_stops {limit : Precedence} {left : Expr} (hStops : c.Stops limit) :
    OperatorsGrounded tokens limit left c := by
  intro hLeft hIn
  rw [operators_of_stops hStops]
  exact .stay hIn hLeft

theorem operandGrounded_of_isOperand {e : Expr} (h : c.current.IsOperand e) :
    OperandGrounded tokens c := by
  intro hIn
  have hCons := tokens_eq_cons h.kind_ne_endOfInput
  have hMem : c.current ∈ tokens := hIn.subset (hCons ▸ List.mem_cons_self)
  rw [operand_of_isOperand h]
  exact .stay hIn (h.occurIn hMem)

theorem operandGrounded_of_bad_integer (hKind : c.current.kind = .integer)
    (hValue : Integer.ofText? c.current.literal = none) : OperandGrounded tokens c := by
  intro hIn
  have hCons := tokens_eq_cons (c := c) (by rw [hKind]; decide)
  have hMem : c.current ∈ tokens := hIn.subset (hCons ▸ List.mem_cons_self)
  rw [operand_of_bad_integer hKind hValue]
  exact .fail hIn (.invalidInteger hMem hKind hValue)

theorem operandGrounded_of_unary (op : UnaryOperator)
    (hOp : UnaryOperator.ofKind? c.current.kind = some op)
    (ih : ExpressionGrounded tokens .unary c.advance) : OperandGrounded tokens c := by
  intro hIn
  rw [operand_of_unary op hOp]
  exact .advancing (.mapValue (ih (suffix_advance hIn)) fun _ h => h)

theorem operandGrounded_of_leftParen (hKind : c.current.kind = .leftParen)
    (ih : ExpressionGrounded tokens .lowest c.advance) : OperandGrounded tokens c := by
  intro hIn
  rw [operand_of_leftParen hKind]
  refine .advancing (.andThen (ih (suffix_advance hIn)) fun inner c₁ _ hInner hIn₁ => ?_)
  exact .mapValue (.expect .rightParen hIn₁) fun _ _ => hInner

theorem operandGrounded_of_ifWord (hKind : c.current.kind = .ifWord)
    (ihTest : ∀ c' : Cursor, c'.remaining ≤ c.remaining →
      ExpressionGrounded tokens .lowest c'.advance)
    (ihBlock : ∀ c' : Cursor, c'.remaining ≤ c.remaining →
      ∀ c'' : Cursor, c''.remaining ≤ c'.advance.remaining → BlockGrounded tokens c'')
    (ihOther : ∀ c' : Cursor, c'.remaining ≤ c.remaining →
      ∀ c'' : Cursor, c''.remaining ≤ c'.advance.remaining → AlternativeGrounded tokens c'') :
    OperandGrounded tokens c := by
  intro hIn
  rw [operand_of_ifWord hKind]
  refine .andThen (.expect .leftParen hIn) fun _ c₁ h₁ _ hIn₁ => .advancing ?_
  refine .andThen (ihTest c₁ h₁ (suffix_advance hIn₁)) fun test c₂ h₂ hTest hIn₂ => ?_
  refine .andThen (.expect .rightParen hIn₂) fun _ c₃ h₃ _ hIn₃ => ?_
  refine .andThen (.expect .leftBrace hIn₃) fun _ c₄ h₄ _ hIn₄ => ?_
  have hLess := Nat.le_trans h₄ (Nat.le_trans h₃ h₂)
  refine .andThen (ihBlock c₁ h₁ c₄ hLess hIn₄) fun consequence c₅ h₅ hBlock hIn₅ => ?_
  have hOther := ihOther c₁ h₁ c₅ (Nat.le_trans h₅ hLess) hIn₅
  exact .mapValue hOther fun other h => occurIn_conditional hTest hBlock h

theorem operandGrounded_of_not_startsOperand (hKind : c.current.kind.startsOperand = false) :
    OperandGrounded tokens c := by
  intro hIn
  rw [operand_of_not_startsOperand hKind]
  exact .fail hIn (.noOperand (current_mem hIn) hKind)

theorem alternativeGrounded_of_elseWord (hElse : c.upcoming.kind = .elseWord)
    (ih : ∀ c' : Cursor, c'.remaining ≤ c.advance.remaining → BlockGrounded tokens c') :
    AlternativeGrounded tokens c := by
  intro hIn
  rw [alternative, if_pos hElse]
  refine .advancing (.andThen (.expect .leftBrace (suffix_advance hIn)) fun _ c' h' _ hIn' => ?_)
  refine .mapValue (ih c' h' hIn') fun ss hBlock => ?_
  rintro _ ⟨⟩
  exact hBlock

theorem alternativeGrounded_of_ne (hElse : c.upcoming.kind ≠ .elseWord) :
    AlternativeGrounded tokens c := by
  intro hIn
  rw [alternative, if_neg hElse]
  refine .stay hIn fun _ hSome => ?_
  cases hSome

theorem blockGrounded_of_rest (ih : BlockRestGrounded tokens c.enterBlock) :
    BlockGrounded tokens c := by
  intro hIn
  rw [block]
  exact .inBlock (ih (suffix_advance hIn))

theorem blockRestGrounded_of_rightBrace (hBrace : c.current.kind = .rightBrace) :
    BlockRestGrounded tokens c := by
  intro hIn
  rw [blockRest_of_rightBrace hBrace]
  exact .goto _ hIn occurIn_nil

theorem blockRestGrounded_of_end (hEnd : c.current.kind = .endOfInput) :
    BlockRestGrounded tokens c := by
  intro hIn
  rw [blockRest_of_end hEnd, ← hEnd]
  exact .fail hIn (.expectedToken .rightBrace (current_mem hIn) (by rw [hEnd]; decide))

theorem blockRestGrounded_of_statement (hBrace : c.current.kind ≠ .rightBrace)
    (hEnd : c.current.kind ≠ .endOfInput) (ihStatement : StatementGrounded tokens c)
    (ihRest : ∀ c' : Cursor, c'.remaining ≤ c.remaining → BlockRestGrounded tokens c'.advance) :
    BlockRestGrounded tokens c := by
  intro hIn
  have hStatement := ihStatement hIn
  cases hValue : (statement c).value with
  | some s =>
    rw [blockRest_of_some hBrace hEnd hValue]
    have hRest := ihRest _ (statement c).remaining_le (suffix_advance hStatement.suffix)
    refine .bind hStatement.diagnostics (.advancing (.mapValue hRest fun ss h => ?_))
    exact occurIn_append.mpr ⟨hStatement.value s hValue, h⟩
  | none =>
    have hStopped : c.stopped.tokens <:+ tokens :=
      (suffix_skipStatement 0 _).trans hStatement.suffix
    rw [blockRest_of_none hBrace hEnd hValue]
    refine .bind hStatement.diagnostics (.bind ?_ ?_)
    · rw [diagnostics_recover]
      exact List.forall_mem_nil _
    · split
      · exact .goto _ hStopped occurIn_nil
      · exact .advancing (ihRest _ c.remaining_stopped_le (suffix_advance hStopped))

/-- Each function that reads is grounded in the tokens if the functions it calls are. -/
theorem grounded_cases (tokens : List Token) :
    ReadingCases (StatementGrounded tokens) (ExpressionGrounded tokens) (OperatorsGrounded tokens)
      (OperandGrounded tokens) (AlternativeGrounded tokens) (BlockGrounded tokens)
      (BlockRestGrounded tokens) where
  binding := statementGrounded_of_letWord
  returning := statementGrounded_of_returnWord
  expressionStatement := statementGrounded_of_expression
  expression := expressionGrounded_of_operand
  stronger := operatorsGrounded_of_stronger
  stops := operatorsGrounded_of_stops
  single := operandGrounded_of_isOperand
  badInteger := operandGrounded_of_bad_integer
  unary := operandGrounded_of_unary
  group := operandGrounded_of_leftParen
  conditional := operandGrounded_of_ifWord
  noOperand := operandGrounded_of_not_startsOperand
  alternative := alternativeGrounded_of_elseWord
  noAlternative := alternativeGrounded_of_ne
  block := blockGrounded_of_rest
  closed := blockRestGrounded_of_rightBrace
  unclosed := blockRestGrounded_of_end
  more := blockRestGrounded_of_statement

/-! ## Programs -/

/-- The integers of a program occur in its tokens, and what is reported is about them. -/
theorem program_grounded (c : Cursor) (hIn : c.tokens <:+ tokens) :
    OccurIn tokens (Statement.integersAll (program c).value) ∧
      ∀ d ∈ (program c).diagnostics, d.About tokens := by
  induction c using program.induct with
  | case1 c hEnd =>
    rw [program_of_end hEnd]
    exact ⟨occurIn_nil, List.forall_mem_nil _⟩
  | case2 c hEnd ih =>
    have hStatement := (grounded_cases tokens).all.1 c hIn
    cases hValue : (statement c).value with
    | some s =>
      obtain ⟨hIntegers, hDiagnostics⟩ :=
        ih _ (statement c).remaining_le (suffix_advance hStatement.suffix)
      rw [program_of_some hEnd hValue]
      exact ⟨occurIn_append.mpr ⟨hStatement.value s hValue, hIntegers⟩,
        List.forall_mem_append.mpr ⟨hStatement.diagnostics, hDiagnostics⟩⟩
    | none =>
      have hStopped : c.stopped.tokens <:+ tokens :=
        (suffix_skipStatement 0 _).trans hStatement.suffix
      obtain ⟨hIntegers, hDiagnostics⟩ := ih _ c.remaining_stopped_le (suffix_advance hStopped)
      obtain ⟨hProgram, hReports⟩ := program_of_onward hEnd hValue
      rw [hProgram, hReports]
      exact ⟨hIntegers, List.forall_mem_append.mpr ⟨hStatement.diagnostics, hDiagnostics⟩⟩

end Cursor

/-- Every integer in the result of a parse is that of a number among the tokens, and every
diagnostic is about one of them or about the end of input. -/
theorem parse_grounded (tokens : List Token) :
    OccurIn tokens (Statement.integersAll (parse tokens).value) ∧
      ∀ d ∈ (parse tokens).diagnostics, d.About tokens :=
  program_grounded (.start tokens) (List.suffix_refl tokens)

end MonkeyLang
