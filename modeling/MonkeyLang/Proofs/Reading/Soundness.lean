import MonkeyLang.Proofs.Reading.Kept
import MonkeyLang.Proofs.Reading.Recovery

/-!
# What is read is written

If reading from a cursor yields a tree, then the tokens it has taken, or some of them, write that
tree. Each function that reads has its own form of this statement, `Keeps...`, and a lemma for
each way it can go that assumes the statement of the functions it calls.

* `keeps_cases` collects the cases for the induction over reading.
* `salvaged_program`, `exists_written_parse` : the result of a program is written by all of its
  tokens, or by some of them if something has been reported (`written_parse_of_wellFormed`).
-/

namespace MonkeyLang

namespace Cursor

theorem noOperator_of_stops {c : Cursor} (h : c.Stops .lowest) : NoOperator c.tokens.tail := by
  change BinaryOperator.ofKind? c.upcoming.kind = none
  cases hOp : BinaryOperator.ofKind? c.upcoming.kind with
  | none => rfl
  | some op => exact absurd op.lowest_lt_precedence (h op hOp)

/-- A statement that is read is written by the tokens taken, or by those of them that are kept. -/
def KeepsStatement (c : Cursor) : Prop :=
  (statement c).Keeps c.tokens (StatementKept c.current)

/-- An expression that is read is the tree of a chain that is written by the tokens kept; its
operators bind tighter than the limit, and reading stops where no such operator follows. -/
def KeepsExpression (limit : Precedence) (c : Cursor) : Prop :=
  (expression limit c).Keeps c.tokens fun e c' ts => ∃ first links,
    Written (.chain first links) ts ∧ ts.head? = some c.current ∧ e = Chain.tree first links ∧
      (∀ link ∈ links, limit < link.1.precedence) ∧ c'.Stops limit

/-- The first link is that of the operator that comes next. -/
def KeepsOperators (limit : Precedence) (left : Expr) (c : Cursor) : Prop :=
  (operators limit left c).Keeps c.tokens.tail fun e c' ts => ∃ links,
    Written (.links links) ts ∧ e = Chain.tree left links ∧
      (∀ link ∈ links, limit < link.1.precedence) ∧ c'.Stops limit ∧
      ∀ link ∈ links.head?, BinaryOperator.ofKind? c.upcoming.kind = some link.1

/-- An operand that is read is written by the tokens kept, of which the first is the current one. -/
def KeepsOperand (c : Cursor) : Prop :=
  (operand c).Keeps c.tokens fun e _ ts =>
    Written (.operand e) ts ∧ ts.head? = some c.current

/-- An alternative that is read is written by the tokens kept of those ahead. -/
def KeepsAlternative (c : Cursor) : Prop :=
  (alternative c).Keeps c.tokens.tail fun other _ ts => Written (.alternative other) ts

/-- A block that is read is written by its statements, in the tokens kept, and its closing brace. -/
def KeepsBlock (c : Cursor) : Prop :=
  (block c).Keeps c.tokens.tail fun ss _ ts =>
    ∃ us r, ts = us ++ [r] ∧ r.kind = .rightBrace ∧ Written (.statements ss) us

/-- The region of a block is what stands in front of its closing brace. -/
def KeepsBlockRest (c : Cursor) : Prop :=
  (∀ t ∈ c.tokens, t.kind ≠ .endOfInput) → ∀ ss, (blockRest c).value = some ss →
    ∃ region r, c.tokens = region ++ r :: (blockRest c).cursor.tokens.tail ∧
      r.kind = .rightBrace ∧ Salvaged ss (blockRest c).diagnostics region

/-- A statement that is read ends with a semicolon, or where no operator continues it. -/
theorem statementKept_of_stops {t : Token} {s : Statement} {c₁ c' : Cursor} {ts gap : List Token}
    (hWritten : Written (.statement s) (t :: ts)) (hStops : c₁.Stops .lowest)
    (hGap : (gap = [] ∧ c' = c₁) ∨ ∃ t, gap = [t] ∧ t.kind = .semicolon) :
    StatementKept t s c' (t :: (ts ++ gap)) := by
  refine ⟨t :: ts, gap, rfl, rfl, hWritten, ?_⟩
  rcases hGap with ⟨rfl, rfl⟩ | hSemicolon
  · exact .inl ⟨rfl, noOperator_of_stops hStops⟩
  · exact .inr hSemicolon

variable {c : Cursor}

/-- The first of the tokens that a statement takes is the current one. -/
theorem head?_of_tokens_eq {s : Statement} {c' : Cursor} {passed kept rest : List Token}
    {ds : List Diagnostic} (hTokens : c.tokens = passed ++ rest) (hKept : Kept ds passed kept)
    (hPost : StatementKept c.current s c' kept) : passed.head? = some c.current := by
  obtain ⟨ts, gap, rfl, hHead, -, -⟩ := hPost
  cases passed with
  | nil =>
    obtain ⟨ts, rfl⟩ := List.head?_eq_some_iff.mp hHead
    cases List.sublist_nil.mp hKept.sublist
  | cons t passed =>
    rw [current_eq hTokens]
    rfl

/-! ## Operands -/

theorem keepsOperand_of_isOperand {e : Expr} (h : c.current.IsOperand e) : KeepsOperand c := by
  unfold KeepsOperand
  rw [operand_of_isOperand h]
  exact .current h.kind_ne_endOfInput (.stay ⟨h.written, rfl⟩)

theorem keepsOperand_of_bad_integer (hKind : c.current.kind = .integer)
    (hValue : Integer.ofText? c.current.literal = none) : KeepsOperand c := by
  unfold KeepsOperand
  rw [operand_of_bad_integer hKind hValue]
  exact .fail _ _

theorem keepsOperand_of_unary (op : UnaryOperator)
    (hOp : UnaryOperator.ofKind? c.current.kind = some op) (ih : KeepsExpression .unary c.advance) :
    KeepsOperand c := by
  have hKind := UnaryOperator.ofKind?_eq_some_iff.mp hOp
  unfold KeepsOperand
  rw [operand_of_unary op hOp]
  refine .current (hKind ▸ op.kind_ne_endOfInput) (.advancing (.mapValue (ih.mono ?_)))
  rintro _ c' ts ⟨first, links, hWritten, -, rfl, hLimit, -⟩
  -- No operator between operands binds more strongly than one in front of its operand.
  obtain rfl : links = [] := List.eq_nil_iff_forall_not_mem.mpr fun link hLink =>
    Precedence.not_lt.mpr link.1.precedence_le_unary (hLimit link hLink)
  rw [Chain.tree_nil]
  exact ⟨.unary op hKind hWritten.operand_of_chain, rfl⟩

theorem keepsOperand_of_leftParen (hKind : c.current.kind = .leftParen)
    (ih : KeepsExpression .lowest c.advance) : KeepsOperand c := by
  unfold KeepsOperand
  rw [operand_of_leftParen hKind]
  refine .current (by rw [hKind]; decide) (.advancing (.andThen ih fun inner c₁ _ ts hInner => ?_))
  obtain ⟨first, links, hWritten, -, rfl, -, -⟩ := hInner
  refine .mapValue ((Attempt.Keeps.expect c₁ (by decide)).mono ?_)
  rintro _ c' us ⟨rfl, hRight, rfl⟩
  exact ⟨.group hKind hRight hWritten, rfl⟩

theorem keepsOperand_of_ifWord (hKind : c.current.kind = .ifWord)
    (ihTest : ∀ c' : Cursor, c'.remaining ≤ c.remaining → KeepsExpression .lowest c'.advance)
    (ihBlock : ∀ c' : Cursor, c'.remaining ≤ c.remaining →
      ∀ c'' : Cursor, c''.remaining ≤ c'.advance.remaining → KeepsBlock c'')
    (ihOther : ∀ c' : Cursor, c'.remaining ≤ c.remaining →
      ∀ c'' : Cursor, c''.remaining ≤ c'.advance.remaining → KeepsAlternative c'') :
    KeepsOperand c := by
  unfold KeepsOperand
  rw [operand_of_ifWord hKind]
  refine .current (by rw [hKind]; decide) ?_
  refine .andThen (.expect c (by decide)) fun _ _ h₁ _ hLeft => ?_
  obtain ⟨rfl, hLeft, rfl⟩ := hLeft
  refine .advancing (.andThen (ihTest _ h₁) fun test c₂ h₂ ts hTest => ?_)
  obtain ⟨first, links, hTest, -, rfl, -, -⟩ := hTest
  refine .andThen (.expect c₂ (by decide)) fun _ _ h₃ _ hRight => ?_
  obtain ⟨rfl, hRight, rfl⟩ := hRight
  refine .andThen (.expect _ (by decide)) fun _ _ h₄ _ hBrace => ?_
  obtain ⟨rfl, hBrace, rfl⟩ := hBrace
  have hLess := Nat.le_trans h₄ (Nat.le_trans h₃ h₂)
  refine .andThen (ihBlock _ h₁ _ hLess) fun ss c₅ h₅ us hBlock => ?_
  obtain ⟨us, r, rfl, hClose, hBody⟩ := hBlock
  have hOther := ihOther _ h₁ c₅ (Nat.le_trans h₅ hLess)
  refine .mapValue (hOther.mono fun other c' vs hOther => ⟨?_, rfl⟩)
  have hWritten := Written.conditional hKind hLeft hRight hTest (.block hBrace hClose hBody) hOther
  simpa using hWritten

theorem keepsOperand_of_not_startsOperand (hStarts : c.current.kind.startsOperand = false) :
    KeepsOperand c := by
  unfold KeepsOperand
  rw [operand_of_not_startsOperand hStarts]
  exact .fail _ _

/-! ## Expressions -/

theorem keepsExpression_of_operand {limit : Precedence} (ihOperand : KeepsOperand c)
    (ihOperators : ∀ (left : Expr) (c' : Cursor), c'.remaining ≤ c.remaining →
      KeepsOperators limit left c') : KeepsExpression limit c := by
  unfold KeepsExpression
  rw [expression]
  refine .andThen ihOperand fun first c₁ h ts hFirst => (ihOperators first c₁ h).mono ?_
  rintro e c' us ⟨links, hLinks, hTree, hLimit, hStops, -⟩
  refine ⟨first, links, .chain hFirst.1 hLinks, ?_, hTree, hLimit, hStops⟩
  rw [List.head?_append, hFirst.2]
  rfl

theorem keepsOperators_of_stronger {limit : Precedence} {left : Expr} {op : BinaryOperator}
    (hOp : BinaryOperator.ofKind? c.upcoming.kind = some op) (hLimit : limit < op.precedence)
    (ihRight : KeepsExpression op.precedence c.advance.advance)
    (ihRest : ∀ (right : Expr) (c' : Cursor), c'.remaining ≤ c.advance.advance.remaining →
      KeepsOperators limit (.binary op left right) c') : KeepsOperators limit left c := by
  have hKind : c.advance.current.kind = op.kind := BinaryOperator.ofKind?_eq_some_iff.mp hOp
  unfold KeepsOperators
  rw [operators_of_stronger hOp hLimit]
  refine .advancing (.current (hKind ▸ op.kind_ne_endOfInput) (.advancing ?_))
  refine .andThen ihRight fun right c₁ h ts hRight => (ihRest right c₁ h).mono ?_
  obtain ⟨first, inner, hWritten, -, rfl, hInner, hStopsInner⟩ := hRight
  rintro e c' us ⟨outer, hOuterWritten, rfl, hOuter, hStops, hNext⟩
  have hStronger : ∀ link ∈ inner, Chain.rank op < Chain.rank link.1 := fun link hLink =>
    Chain.precedence_lt_iff.mp (hInner link hLink)
  have hHead : ∀ link ∈ outer.head?, Chain.rank link.1 ≤ Chain.rank op := fun link hLink =>
    Chain.precedence_le_iff.mp (Precedence.not_lt.mp (hStopsInner link.1 (hNext link hLink)))
  obtain ⟨vs, ws, rfl, hOperand, hLinks⟩ := hWritten.chain_parts
  refine ⟨(op, first) :: (inner ++ outer), ?_,
    (Chain.tree_regroup left first hStronger hHead).symm, ?_, hStops, ?_⟩
  · have hJoined := Written.link op hKind hOperand (hLinks.append_links hOuterWritten)
    simpa using hJoined
  · intro link hLink
    rcases List.mem_cons.mp hLink with rfl | hLink
    · exact hLimit
    rcases List.mem_append.mp hLink with hLink | hLink
    · exact Precedence.lt_of_lt_of_le hLimit (Precedence.le_of_lt (hInner link hLink))
    · exact hOuter link hLink
  · rintro _ ⟨⟩
    exact hOp

theorem keepsOperators_of_stops {limit : Precedence} {left : Expr} (hStops : c.Stops limit) :
    KeepsOperators limit left c := by
  unfold KeepsOperators
  rw [operators_of_stops hStops]
  exact .stay ⟨[], .noLink, (Chain.tree_nil _).symm, by simp, hStops, by simp⟩

/-! ## Statements -/

theorem keepsStatement_of_letWord (hKind : c.current.kind = .letWord)
    (ih : ∀ c' : Cursor, c'.remaining ≤ c.remaining → KeepsExpression .lowest c'.advance) :
    KeepsStatement c := by
  unfold KeepsStatement
  rw [statement_of_letWord hKind]
  refine .current (by rw [hKind]; decide) ?_
  refine .andThen (.expect c (by decide)) fun _ _ h₁ _ hName => ?_
  obtain ⟨rfl, hName, rfl⟩ := hName
  refine .andThen (.expect _ (by decide)) fun _ _ h₂ _ hAssign => ?_
  obtain ⟨rfl, hAssign, rfl⟩ := hAssign
  refine .advancing (.andThen (ih _ (Nat.le_trans h₂ h₁)) fun value c₃ _ ts hValue => ?_)
  obtain ⟨first, links, hWritten, -, rfl, -, hStops⟩ := hValue
  refine (Attempt.Keeps.endStatement c₃ _).mono ?_
  rintro _ c' gap ⟨rfl, hGap⟩
  have hStatement := Written.binding hKind hName hAssign hWritten
  have hKept := statementKept_of_stops hStatement hStops hGap
  exact hKept

theorem keepsStatement_of_returnWord (hKind : c.current.kind = .returnWord)
    (ih : KeepsExpression .lowest c.advance) : KeepsStatement c := by
  unfold KeepsStatement
  rw [statement_of_returnWord hKind]
  refine .current (by rw [hKind]; decide) ?_
  refine .advancing (.andThen ih fun value c₁ _ ts hValue => ?_)
  obtain ⟨first, links, hWritten, -, rfl, -, hStops⟩ := hValue
  refine (Attempt.Keeps.endStatement c₁ _).mono ?_
  rintro _ c' gap ⟨rfl, hGap⟩
  exact statementKept_of_stops (.returning hKind hWritten) hStops hGap

theorem keepsStatement_of_expression (hLet : c.current.kind ≠ .letWord)
    (hReturn : c.current.kind ≠ .returnWord) (ih : KeepsExpression .lowest c) :
    KeepsStatement c := by
  unfold KeepsStatement
  rw [statement_of_expression hLet hReturn]
  refine .andThen ih fun value c₁ _ ts hValue => ?_
  obtain ⟨first, links, hWritten, hHead, rfl, -, hStops⟩ := hValue
  obtain ⟨ts, rfl⟩ := List.head?_eq_some_iff.mp hHead
  refine (Attempt.Keeps.endStatement c₁ _).mono ?_
  rintro _ c' gap ⟨rfl, hGap⟩
  exact statementKept_of_stops (.expression hWritten) hStops hGap

/-! ## Blocks -/

theorem keepsAlternative_of_elseWord (hElse : c.upcoming.kind = .elseWord)
    (ih : ∀ c' : Cursor, c'.remaining ≤ c.advance.remaining → KeepsBlock c') :
    KeepsAlternative c := by
  have hEnd : c.advance.current.kind ≠ .endOfInput := by rw [current_advance, hElse]; decide
  unfold KeepsAlternative
  rw [alternative, if_pos hElse]
  refine .advancing (.current hEnd ?_)
  refine .andThen (.expect _ (by decide)) fun _ _ h _ hBrace => ?_
  obtain ⟨rfl, hBrace, rfl⟩ := hBrace
  refine .mapValue ((ih _ h).mono ?_)
  rintro ss c' _ ⟨us, r, rfl, hClose, hBody⟩
  exact .alternative hElse (.block hBrace hClose hBody)

theorem keepsAlternative_of_ne (hElse : c.upcoming.kind ≠ .elseWord) : KeepsAlternative c := by
  unfold KeepsAlternative
  rw [alternative, if_neg hElse]
  exact .stay .noAlternative

theorem keepsBlock_of_rest (ih : KeepsBlockRest c.enterBlock) : KeepsBlock c := by
  intro hPlain ss hValue
  rw [block] at hValue ⊢
  obtain ⟨region, r, hTokens, hClose, hSalvaged⟩ := ih hPlain ss hValue
  obtain ⟨kept, hKept, hWritten⟩ := hSalvaged.alone
  have hAll := hKept.append (.refl [] [r])
  rw [List.append_nil] at hAll
  refine ⟨region ++ [r], kept ++ [r], ?_, hAll, kept, r, rfl, hClose, hWritten⟩
  rw [List.append_assoc]
  exact hTokens

theorem keepsBlockRest_of_rightBrace (hBrace : c.current.kind = .rightBrace) :
    KeepsBlockRest c := by
  intro _ ss hValue
  rw [blockRest_of_rightBrace hBrace] at hValue ⊢
  cases hValue
  exact ⟨[], c.current, tokens_eq_cons (by rw [hBrace]; decide), hBrace, .nil fun _ => rfl⟩

theorem keepsBlockRest_of_end (hEnd : c.current.kind = .endOfInput) : KeepsBlockRest c := by
  intro _ ss hValue
  rw [blockRest_of_end hEnd] at hValue
  cases hValue

theorem keepsBlockRest_of_some (hBrace : c.current.kind ≠ .rightBrace)
    (hEnd : c.current.kind ≠ .endOfInput) {s : Statement} (hSome : (statement c).value = some s)
    (ihStatement : KeepsStatement c) (ihRest : KeepsBlockRest (statement c).cursor.advance) :
    KeepsBlockRest c := by
  intro hPlain ss hValue
  rw [blockRest_of_some hBrace hEnd hSome] at hValue ⊢
  obtain ⟨rest, hRest, rfl⟩ := Option.map_eq_some_iff.mp hValue
  obtain ⟨passed, kept, hTokens, hKept, hPost⟩ := ihStatement hPlain s hSome
  have hFirst := head?_of_tokens_eq hTokens hKept hPost
  rw [hTokens] at hPlain ⊢
  obtain ⟨region, r, hAhead, hClose, hSalvaged⟩ :=
    ihRest (fun t ht => hPlain t (List.mem_append_right _ ht)) rest hRest
  refine ⟨passed ++ region, r, ?_, hClose, .cons hKept hFirst hPost hAhead hSalvaged⟩
  rw [List.append_assoc]
  exact congrArg (passed ++ ·) hAhead

theorem keepsBlockRest_of_ownBrace (hBrace : c.current.kind ≠ .rightBrace)
    (hEnd : c.current.kind ≠ .endOfInput) (hNone : (statement c).value = none)
    (hRecover : (statement c).cursor.recover.value = true) : KeepsBlockRest c := by
  intro _ ss hValue
  obtain ⟨hSome, hCursor, hDiagnostics⟩ := blockRest_of_ownBrace hBrace hEnd hNone hRecover
  obtain ⟨passed, hPassed⟩ := exists_eq_append_stopped c
  have hClose : c.stopped.current.kind = .rightBrace :=
    current_of_atOwnBrace (atOwnBrace_of_value_recover hRecover)
  rw [hSome] at hValue
  cases hValue
  rw [hCursor, hDiagnostics]
  refine ⟨passed, _, ?_, hClose, .nil fun hNil => ?_⟩
  · rw [hPassed, tokens_eq_cons (by rw [hClose]; decide)]
    rfl
  · exact absurd hNil (diagnostics_statement_ne_nil hNone)

theorem keepsBlockRest_of_onward (hBrace : c.current.kind ≠ .rightBrace)
    (hEnd : c.current.kind ≠ .endOfInput) (hNone : (statement c).value = none)
    (hRecover : (statement c).cursor.recover.value = false)
    (ihRest : KeepsBlockRest c.stopped.advance) : KeepsBlockRest c := by
  intro hPlain ss hValue
  have hReported := diagnostics_statement_ne_nil hNone
  obtain ⟨passed, hPassed⟩ := exists_eq_append_stopped c
  obtain ⟨hSome, hCursor, hDiagnostics⟩ := blockRest_of_onward hBrace hEnd hNone hRecover
  rw [hSome] at hValue
  rw [hCursor, hDiagnostics]
  rcases stopped_cases hPlain hRecover with hSemicolon | hTail | ⟨-, hNext⟩
  · rw [tokens_eq_cons (c := c.stopped) (by rw [hSemicolon]; decide)] at hPassed
    rw [hPassed] at hPlain ⊢
    obtain ⟨region, r, hAhead, hClose, hSalvaged⟩ := ihRest
      (fun t ht => hPlain t (List.mem_append_right _ (List.mem_cons_of_mem _ ht))) ss hValue
    refine ⟨_, r, ?_, hClose, hSalvaged.skip hReported passed hSemicolon⟩
    rw [List.append_assoc, List.cons_append]
    exact congrArg (passed ++ c.stopped.current :: ·) hAhead
  · rw [blockRest_of_end (c := c.stopped.advance) (upcoming_of_tail_eq_nil hTail)] at hValue
    cases hValue
  · rw [blockRest_of_rightBrace (c := c.stopped.advance) hNext] at hValue ⊢
    cases hValue
    rw [tokens_eq_cons_cons (c := c.stopped) (by rw [hNext]; decide)] at hPassed
    refine ⟨passed ++ [c.stopped.current], _, ?_, hNext, .nil fun hNil => ?_⟩
    · rw [hPassed, List.append_assoc]
      rfl
    · exact absurd (List.append_eq_nil_iff.mp hNil).1 hReported

theorem keepsBlockRest_of_statement (hBrace : c.current.kind ≠ .rightBrace)
    (hEnd : c.current.kind ≠ .endOfInput) (ihStatement : KeepsStatement c)
    (ihRest : ∀ c' : Cursor, c'.remaining ≤ c.remaining → KeepsBlockRest c'.advance) :
    KeepsBlockRest c := by
  cases hValue : (statement c).value with
  | some s =>
    exact keepsBlockRest_of_some hBrace hEnd hValue ihStatement
      (ihRest _ (statement c).remaining_le)
  | none =>
    cases hRecover : (statement c).cursor.recover.value with
    | true => exact keepsBlockRest_of_ownBrace hBrace hEnd hValue hRecover
    | false =>
      exact keepsBlockRest_of_onward hBrace hEnd hValue hRecover
        (ihRest c.stopped c.remaining_stopped_le)

/-! ## The induction -/

/-- What a function reads is written by the tokens kept, if that holds of the functions it calls. -/
theorem keeps_cases : ReadingCases KeepsStatement KeepsExpression KeepsOperators
    KeepsOperand KeepsAlternative KeepsBlock KeepsBlockRest where
  binding := keepsStatement_of_letWord
  returning := keepsStatement_of_returnWord
  expressionStatement := keepsStatement_of_expression
  expression := keepsExpression_of_operand
  stronger := keepsOperators_of_stronger
  stops := keepsOperators_of_stops
  single := keepsOperand_of_isOperand
  badInteger := keepsOperand_of_bad_integer
  unary := keepsOperand_of_unary
  group := keepsOperand_of_leftParen
  conditional := keepsOperand_of_ifWord
  noOperand := keepsOperand_of_not_startsOperand
  alternative := keepsAlternative_of_elseWord
  noAlternative := keepsAlternative_of_ne
  block := keepsBlock_of_rest
  closed := keepsBlockRest_of_rightBrace
  unclosed := keepsBlockRest_of_end
  more := keepsBlockRest_of_statement

theorem keeps_statement (c : Cursor) : KeepsStatement c :=
  keeps_cases.all.1 c

/-- The result of a program can be written with some of its tokens. -/
theorem salvaged_program (hPlain : ∀ t ∈ c.tokens, t.kind ≠ .endOfInput) (hOutside : c.depth = 0) :
    Salvaged (program c).value (program c).diagnostics c.tokens := by
  induction c using program.induct with
  | case1 c hEnd =>
    rw [program_of_end hEnd]
    exact .nil fun _ => tokens_eq_nil hPlain hEnd
  | case2 c hEnd ih =>
    cases hStatement : (statement c).value with
    | some s =>
      rw [program_of_some hEnd hStatement]
      obtain ⟨passed, kept, hTokens, hKept, hPost⟩ := keeps_statement c hPlain s hStatement
      have hFirst := head?_of_tokens_eq hTokens hKept hPost
      rw [hTokens] at hPlain ⊢
      have hRest := ih _ (statement c).remaining_le
        (fun t ht => hPlain t (List.mem_append_right _ ht)) ((depth_statement c).trans hOutside)
      exact .cons hKept hFirst hPost (List.append_nil _).symm hRest
    | none =>
      have hReported := diagnostics_statement_ne_nil hStatement
      have hRecover := value_recover_of_outside ((depth_statement c).trans hOutside)
      obtain ⟨passed, hPassed⟩ := exists_eq_append_stopped c
      obtain ⟨hValue, hDiagnostics⟩ := program_of_onward hEnd hStatement
      rw [hValue, hDiagnostics]
      rcases stopped_cases hPlain hRecover with hSemicolon | hTail | ⟨hInside, -⟩
      · rw [tokens_eq_cons (c := c.stopped) (by rw [hSemicolon]; decide)] at hPassed
        rw [hPassed] at hPlain ⊢
        have hRest := ih c.stopped c.remaining_stopped_le
          (fun t ht => hPlain t (List.mem_append_right _ (List.mem_cons_of_mem _ ht)))
          (c.depth_stopped.trans hOutside)
        exact hRest.skip hReported passed hSemicolon
      · rw [program_of_end (c := c.stopped.advance) (upcoming_of_tail_eq_nil hTail)]
        exact .nil fun hNil => absurd (List.append_eq_nil_iff.mp hNil).1 hReported
      · exact absurd hOutside (Nat.ne_of_gt hInside)

end Cursor

/-- The result of a parse is written by some of the tokens, and by all of them if nothing is
reported. -/
theorem exists_written_parse {tokens : List Token} (hPlain : ∀ t ∈ tokens, t.kind ≠ .endOfInput) :
    ∃ kept, Kept (parse tokens).diagnostics tokens kept ∧
      Written (.statements (parse tokens).value) kept :=
  (Cursor.salvaged_program (c := .start tokens) hPlain rfl).alone

/-- Without diagnostics the result is written by all the tokens. -/
theorem written_parse_of_wellFormed {tokens : List Token}
    (hPlain : ∀ t ∈ tokens, t.kind ≠ .endOfInput) (h : (parse tokens).diagnostics = []) :
    Written (.statements (parse tokens).value) tokens := by
  obtain ⟨kept, hKept, hWritten⟩ := exists_written_parse hPlain
  rwa [hKept.all h] at hWritten

end MonkeyLang
