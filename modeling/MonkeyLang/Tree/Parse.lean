import MonkeyLang.Cursor.Recovery
import MonkeyLang.Tree

/-!
# Parsing

Reads trees from a list of tokens. A construct that is read ends on its last token, not after
it. A malformed statement is reported and dropped, and parsing goes on after it, so a parse
always yields a list of statements and a list of diagnostics.

Operators are read by their binding strength: `Cursor.operators` extends an expression to the
right as long as the operator that follows binds more strongly than the limit it was given.

* `Cursor.program` reads statements to the end of input, `Cursor.blockRest` to a closing brace.
* `parse` is the whole process, from the first token of a list on.
-/

namespace MonkeyLang

namespace Cursor

/-- An operator that comes next is one of at least two remaining tokens. -/
theorem one_lt_remaining_of_operator {c : Cursor} {op : BinaryOperator}
    (h : BinaryOperator.ofKind? c.upcoming.kind = some op) : 1 < c.remaining := by
  refine one_lt_remaining fun hEnd => ?_
  rw [hEnd] at h
  cases h

mutual

/-- Reads a statement. -/
def statement (c : Cursor) : Attempt c Statement :=
  match c.current.kind with
  | .letWord =>
    (c.expect .identifier).andThen fun _ c₁ _ =>
      (c₁.expect .assign).andThen fun _ c₂ _ =>
        .advancing <| (expression .lowest c₂.advance).andThen fun value c₃ _ =>
          c₃.endStatement (.binding c₁.current.literal value)
  | .returnWord =>
    .advancing <| (expression .lowest c.advance).andThen fun value c' _ =>
      c'.endStatement (.returning value)
  | _ =>
    (expression .lowest c).andThen fun value c' _ =>
      c'.endStatement (.expression c.current.literal value)
termination_by 6 * c.remaining + 2
decreasing_by
  · simp only [remaining_advance]
    omega
  · simp only [remaining_advance]
    omega
  · omega

/-- Reads an expression whose operators bind more strongly than the limit. -/
def expression (limit : Precedence) (c : Cursor) : Attempt c Expr :=
  (operand c).andThen fun left c' _ => operators limit left c'
termination_by 6 * c.remaining + 1
decreasing_by
  all_goals omega

/-- Reads an expression up to its first operator between operands. -/
def operand (c : Cursor) : Attempt c Expr :=
  match _hKind : c.current.kind with
  | .identifier => .stay (some (.identifier c.current.literal))
  | .integer =>
    match Integer.ofText? c.current.literal with
    | some value => .stay (some (.integer value))
    | none => .fail (.invalidInteger c.current.literal)
  | .trueWord => .stay (some (.boolean true))
  | .falseWord => .stay (some (.boolean false))
  | .bang =>
    .advancing <| (expression .unary c.advance).mapValue (.unary .not)
  | .minus =>
    .advancing <| (expression .unary c.advance).mapValue (.unary .negate)
  | .leftParen =>
    .advancing <| (expression .lowest c.advance).andThen fun inner c₁ _ =>
      (c₁.expect .rightParen).mapValue fun _ => inner
  | .ifWord =>
    (c.expect .leftParen).andThen fun _ c₁ _ =>
      .advancing <| (expression .lowest c₁.advance).andThen fun test c₂ _ =>
        (c₂.expect .rightParen).andThen fun _ c₃ _ =>
          (c₃.expect .leftBrace).andThen fun _ c₄ _ =>
            (block c₄).andThen fun consequence c₅ _ =>
              (alternative c₅).mapValue fun other => .conditional test consequence other
  | kind => .fail (.noOperand kind)
termination_by 6 * c.remaining
decreasing_by
  all_goals
    have := c.remaining_pos (by simp [_hKind])
    simp only [remaining_advance] at *
    omega

/-- Extends an expression to the right by the operators that bind more strongly than the
limit. -/
def operators (limit : Precedence) (left : Expr) (c : Cursor) : Attempt c Expr :=
  match _hOp : BinaryOperator.ofKind? c.upcoming.kind with
  | some op =>
    if limit < op.precedence then
      .advancing <| .advancing <|
        (expression op.precedence c.advance.advance).andThen fun right c' _ =>
          operators limit (.binary op left right) c'
    else
      .stay (some left)
  | none => .stay (some left)
termination_by 6 * c.remaining
decreasing_by
  all_goals
    have := one_lt_remaining_of_operator _hOp
    simp only [remaining_advance] at *
    omega

/-- Reads the alternative of a conditional, if one follows. -/
def alternative (c : Cursor) : Attempt c (Option (List Statement)) :=
  if c.upcoming.kind = .elseWord then
    .advancing <| (c.advance.expect .leftBrace).andThen fun _ c' _ =>
      (block c').mapValue some
  else
    .stay (some none)
termination_by 6 * c.remaining + 5
decreasing_by
  simp only [remaining_advance] at *
  omega

/-- Reads a block from its opening brace to its closing one. -/
def block (c : Cursor) : Attempt c (List Statement) :=
  .inBlock (blockRest c.enterBlock)
termination_by 6 * c.remaining + 4
decreasing_by
  simp only [remaining_enterBlock]
  omega

/-- Reads the statements of a block up to its closing brace. Malformed ones are dropped, but a
block that is never closed is malformed itself. -/
def blockRest (c : Cursor) : Attempt c (List Statement) :=
  if c.current.kind = .rightBrace then
    .goto (some []) c.closeBlock
  else if _hEnd : c.current.kind = .endOfInput then
    .fail (.expectedToken .rightBrace .endOfInput)
  else
    (statement c).orRecover
      (fun s c' _ => .advancing <| (blockRest c'.advance).mapValue (s :: ·))
      (fun atBrace c' _ =>
        if atBrace then .goto (some []) c'.closeBlock else .advancing (blockRest c'.advance))
termination_by 6 * c.remaining + 3
decreasing_by
  · omega
  all_goals
    have := remaining_pos _hEnd
    simp only [remaining_advance]
    omega

end

/-! ## What is read by the token that comes -/

section equations

variable {c : Cursor}

theorem statement_of_letWord (h : c.current.kind = .letWord) :
    statement c =
      (c.expect .identifier).andThen fun _ c₁ _ =>
        (c₁.expect .assign).andThen fun _ c₂ _ =>
          .advancing <| (expression .lowest c₂.advance).andThen fun value c₃ _ =>
            c₃.endStatement (.binding c₁.current.literal value) := by
  rw [statement, h]

theorem statement_of_returnWord (h : c.current.kind = .returnWord) :
    statement c =
      .advancing ((expression .lowest c.advance).andThen fun value c' _ =>
        c'.endStatement (.returning value)) := by
  rw [statement, h]

theorem statement_of_expression (hLet : c.current.kind ≠ .letWord)
    (hReturn : c.current.kind ≠ .returnWord) :
    statement c =
      (expression .lowest c).andThen fun value c' _ =>
        c'.endStatement (.expression c.current.literal value) := by
  rw [statement]
  split
  · exact absurd ‹_› hLet
  · exact absurd ‹_› hReturn
  · rfl

theorem operand_of_identifier (h : c.current.kind = .identifier) :
    operand c = .stay (some (.identifier c.current.literal)) := by
  rw [operand]
  split <;> simp_all

theorem operand_of_integer (h : c.current.kind = .integer) {value : Integer}
    (hValue : Integer.ofText? c.current.literal = some value) :
    operand c = .stay (some (.integer value)) := by
  rw [operand]
  split <;> simp_all

theorem operand_of_bad_integer (h : c.current.kind = .integer)
    (hValue : Integer.ofText? c.current.literal = none) :
    operand c = .fail (.invalidInteger c.current.literal) := by
  rw [operand]
  split <;> simp_all

theorem operand_of_trueWord (h : c.current.kind = .trueWord) :
    operand c = .stay (some (.boolean true)) := by
  rw [operand]
  split <;> simp_all

theorem operand_of_falseWord (h : c.current.kind = .falseWord) :
    operand c = .stay (some (.boolean false)) := by
  rw [operand]
  split <;> simp_all

theorem operand_of_unary (op : UnaryOperator)
    (h : UnaryOperator.ofKind? c.current.kind = some op) :
    operand c = .advancing ((expression .unary c.advance).mapValue (.unary op)) := by
  rw [UnaryOperator.ofKind?_eq_some_iff] at h
  cases op <;> rw [operand] <;> split <;> simp_all [UnaryOperator.kind]

theorem operand_of_leftParen (h : c.current.kind = .leftParen) :
    operand c =
      .advancing ((expression .lowest c.advance).andThen fun inner c₁ _ =>
        (c₁.expect .rightParen).mapValue fun _ => inner) := by
  rw [operand]
  split <;> simp_all

theorem operand_of_ifWord (h : c.current.kind = .ifWord) :
    operand c =
      (c.expect .leftParen).andThen fun _ c₁ _ =>
        .advancing <| (expression .lowest c₁.advance).andThen fun test c₂ _ =>
          (c₂.expect .rightParen).andThen fun _ c₃ _ =>
            (c₃.expect .leftBrace).andThen fun _ c₄ _ =>
              (block c₄).andThen fun consequence c₅ _ =>
                (alternative c₅).mapValue fun other =>
                  .conditional test consequence other := by
  rw [operand]
  split <;> simp_all

theorem operand_of_not_startsOperand (h : c.current.kind.startsOperand = false) :
    operand c = .fail (.noOperand c.current.kind) := by
  rw [operand]
  split <;> simp_all [Token.Kind.startsOperand]

theorem operators_of_stronger {limit : Precedence} {left : Expr} {op : BinaryOperator}
    (h : BinaryOperator.ofKind? c.upcoming.kind = some op) (hLimit : limit < op.precedence) :
    operators limit left c =
      .advancing (.advancing ((expression op.precedence c.advance.advance).andThen
        fun right c' _ => operators limit (.binary op left right) c')) := by
  rw [operators]
  split <;> simp_all

/-- No operator that binds more strongly than the limit comes next. -/
def Stops (limit : Precedence) (c : Cursor) : Prop :=
  ∀ op, BinaryOperator.ofKind? c.upcoming.kind = some op → ¬ limit < op.precedence

theorem stops_of_none (limit : Precedence)
    (h : BinaryOperator.ofKind? c.upcoming.kind = none) : c.Stops limit := by
  intro op hOp
  rw [h] at hOp
  cases hOp

theorem stops_of_not_lt {limit : Precedence} {op : BinaryOperator}
    (h : BinaryOperator.ofKind? c.upcoming.kind = some op) (hLimit : ¬ limit < op.precedence) :
    c.Stops limit := by
  intro op' hOp
  rw [h] at hOp
  cases hOp
  exact hLimit

theorem operators_of_stops {limit : Precedence} {left : Expr} (h : c.Stops limit) :
    operators limit left c = .stay (some left) := by
  unfold Stops at h
  rw [operators]
  split <;> simp_all

end equations

/-- Reads statements to the end of input. Malformed ones are dropped. -/
def program (c : Cursor) : Step c (List Statement) :=
  if _hEnd : c.current.kind = .endOfInput then
    .stay []
  else
    (statement c).orRecover
      (fun s c' _ => .advancing <| (program c'.advance).map (s :: ·))
      (fun _ c' _ => .advancing (program c'.advance))
termination_by c.remaining
decreasing_by
  all_goals
    have := remaining_pos _hEnd
    simp only [remaining_advance]
    omega

/-! ### Lists of statements by how the first one is read -/

section equations

variable {c : Cursor}

theorem blockRest_of_rightBrace (h : c.current.kind = .rightBrace) :
    blockRest c = .goto (some []) c.closeBlock c.remaining_closeBlock_le := by
  rw [blockRest, if_pos h]

theorem blockRest_of_end (h : c.current.kind = .endOfInput) :
    blockRest c = .fail (.expectedToken .rightBrace .endOfInput) := by
  rw [blockRest, if_neg (by rw [h]; decide), dif_pos h]

theorem blockRest_of_some {s : Statement} (hBrace : c.current.kind ≠ .rightBrace)
    (hEnd : c.current.kind ≠ .endOfInput) (hs : (statement c).value = some s) :
    blockRest c =
      Step.bind (statement c) fun _ c' _ =>
        .advancing ((blockRest c'.advance).mapValue (s :: ·)) := by
  rw [blockRest, if_neg hBrace, dif_neg hEnd, Attempt.orRecover_of_some hs]

theorem blockRest_of_none (hBrace : c.current.kind ≠ .rightBrace)
    (hEnd : c.current.kind ≠ .endOfInput) (hs : (statement c).value = none) :
    blockRest c =
      Step.bind (statement c) fun _ c' _ =>
        c'.recover.bind fun atBrace c'' _ =>
          if atBrace then .goto (some []) c''.closeBlock c''.remaining_closeBlock_le
          else .advancing (blockRest c''.advance) := by
  rw [blockRest, if_neg hBrace, dif_neg hEnd, Attempt.orRecover_of_none hs]

theorem program_of_end (h : c.current.kind = .endOfInput) : program c = .stay [] := by
  rw [program, dif_pos h]

/-- A statement that is read comes first, and the program goes on behind it. -/
theorem program_of_some {s : Statement} (hEnd : c.current.kind ≠ .endOfInput)
    (hs : (statement c).value = some s) :
    program c =
      Step.bind (statement c) fun _ c' _ =>
        .advancing ((program c'.advance).map (s :: ·)) := by
  rw [program, dif_neg hEnd, Attempt.orRecover_of_some hs]

/-- A statement that is given up leaves nothing, and the program goes on where recovery ends. -/
theorem program_of_none (hEnd : c.current.kind ≠ .endOfInput)
    (hs : (statement c).value = none) :
    program c =
      Step.bind (statement c) fun _ c' _ =>
        c'.recover.bind fun _ c'' _ => .advancing (program c''.advance) := by
  rw [program, dif_neg hEnd, Attempt.orRecover_of_none hs]

end equations

end Cursor

/-- Parses a list of tokens, which the end of input follows. -/
def parse (tokens : List Token) : Step (.start tokens) (List Statement) :=
  Cursor.program (.start tokens)

end MonkeyLang
