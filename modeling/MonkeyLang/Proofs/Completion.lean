import Mathlib.Computability.Language
import Mathlib.Order.CompletePartialOrder
import MonkeyLang.Proofs.Invariant
import MonkeyLang.Proofs.Written
import MonkeyLang.Proofs.Yields

/-!
# Completing a text that breaks off

Where nothing is wrong with a text but that it ends too early, it can be completed. Each part of
a program has a language, and an attempt to read the part takes tokens of that language unless
it reports something; if all its reports mention the end of input, the tokens that are left can
be completed to tokens of the language.

Attempts are put together as languages are: `Attempt.Completes` has a rule for each way to build
an attempt, and in the rule for one attempt after another the languages are concatenated.

* `completes_cases` collects the cases for the induction over reading.
* `exists_completion` : a program that breaks off can be completed.
-/

namespace MonkeyLang

open Cursor

/-! ## The languages of the parts -/

/-- The tokens that can be derived from a nonterminal, with integers in range. -/
def Nonterminal.language (n : Nonterminal) : Language Token :=
  {ts | Derives n (ts.map Token.kind) ∧ IntegersInRange ts}

/-- The single tokens of a kind. -/
def Token.Kind.language (k : Token.Kind) : Language Token :=
  {ts | ∃ t : Token, t.kind = k ∧ ts = [t]}

/-- What may end a statement. -/
def terminatorLanguage : Language Token :=
  {ts | ts.map Token.kind ∈ terminators ∧ IntegersInRange ts}

/-- What may follow the opening brace of a block. -/
def blockLanguage : Language Token :=
  Nonterminal.statements.language * Token.Kind.rightBrace.language

/-- Expressions, or operands where no operator is strong enough to continue them. -/
def expressionLanguage (limit : Precedence) : Language Token :=
  {ts | ts ∈ Nonterminal.expression.language ∧
    (limit = .unary → ts ∈ Nonterminal.operand.language)}

/-- What may follow an operand in an expression. -/
def operatorsLanguage (limit : Precedence) : Language Token :=
  {ts | ∀ us ∈ Nonterminal.operand.language, us ++ ts ∈ expressionLanguage limit}

theorem mem_language_of_kind {t : Token} {k : Token.Kind} (h : t.kind = k) : [t] ∈ k.language :=
  ⟨t, h, rfl⟩

theorem exists_mem_language_kind (k : Token.Kind) : ∃ ts, ts ∈ k.language :=
  ⟨[⟨k, ""⟩], mem_language_of_kind rfl⟩

theorem exists_mem_mul {K L : Language Token} (hK : ∃ ts, ts ∈ K) (hL : ∃ ts, ts ∈ L) :
    ∃ ts, ts ∈ K * L := by
  obtain ⟨ts, hts⟩ := hK
  obtain ⟨us, hus⟩ := hL
  exact ⟨ts ++ us, Language.append_mem_mul hts hus⟩

theorem trueWord_mem_operand : [⟨.trueWord, ""⟩] ∈ Nonterminal.operand.language :=
  ⟨.trueWord, by simp [IntegersInRange]⟩

/-- A token that is an operand by itself is in the language of operands. -/
theorem Token.IsOperand.mem_operand {t : Token} {e : Expr} (h : t.IsOperand e) :
    [t] ∈ Nonterminal.operand.language :=
  ⟨h.written.derived, h.written.integersInRange⟩

theorem mem_expressionLanguage_of_operand (limit : Precedence) {ts : List Token}
    (h : ts ∈ Nonterminal.operand.language) : ts ∈ expressionLanguage limit :=
  ⟨⟨.lastOperand h.1, h.2⟩, fun _ => h⟩

theorem nil_mem_operatorsLanguage (limit : Precedence) : [] ∈ operatorsLanguage limit := by
  intro us h
  rw [List.append_nil]
  exact mem_expressionLanguage_of_operand limit h

theorem exists_mem_expression (limit : Precedence) : ∃ ts, ts ∈ expressionLanguage limit :=
  ⟨_, mem_expressionLanguage_of_operand limit trueWord_mem_operand⟩

theorem nil_mem_statements : [] ∈ Nonterminal.statements.language :=
  ⟨.noStatement, integersInRange_nil⟩

theorem nil_mem_alternative : [] ∈ Nonterminal.alternative.language :=
  ⟨.noAlternative, integersInRange_nil⟩

theorem exists_mem_block : ∃ ts, ts ∈ blockLanguage :=
  exists_mem_mul ⟨_, nil_mem_statements⟩ (exists_mem_language_kind _)

theorem nil_mem_terminator : [] ∈ terminatorLanguage :=
  ⟨by decide, integersInRange_nil⟩

theorem semicolon_mem_terminator {t : Token} (h : t.kind = .semicolon) :
    [t] ∈ terminatorLanguage := by
  refine ⟨?_, by simp [IntegersInRange, h]⟩
  rw [List.map_singleton, h]
  decide

/-! ## Attempts and languages -/

/-- The diagnostic was caused by the end of input. -/
def Diagnostic.MentionsEnd : Diagnostic → Prop
  | .expectedToken _ found => found = .endOfInput
  | .noOperand found => found = .endOfInput
  | .invalidInteger _ => False

instance : DecidablePred Diagnostic.MentionsEnd
  | .expectedToken _ found => inferInstanceAs (Decidable (found = .endOfInput))
  | .noOperand found => inferInstanceAs (Decidable (found = .endOfInput))
  | .invalidInteger _ => inferInstanceAs (Decidable False)

/-- Unless something else is wrong than that the text ends, the attempt takes tokens of the
language from those that are ahead, or all of them can be completed to tokens of the
language. -/
def Attempt.Completes {c : Cursor} {α : Type} (s : Attempt c α) (ahead : List Token)
    (L : Language Token) : Prop :=
  (∀ t ∈ ahead, t.kind ≠ .endOfInput) → (∀ d ∈ s.diagnostics, d.MentionsEnd) →
    (∃ v c' taken, s.Yields v c' ∧ ahead = taken ++ c'.tokens.tail ∧ taken ∈ L) ∨
      ∃ added, ahead ++ added ∈ L

namespace Attempt.Completes

variable {c : Cursor} {α β : Type} {ahead : List Token} {K L M : Language Token}

theorem mono {s : Attempt c α} (h : s.Completes ahead K) (hLanguage : K ≤ L) :
    s.Completes ahead L := by
  intro hPlain hEnd
  rcases h hPlain hEnd with ⟨v, c', taken, hYields, hAhead, hTaken⟩ | ⟨added, hAdded⟩
  · exact .inl ⟨v, c', taken, hYields, hAhead, hLanguage hTaken⟩
  · exact .inr ⟨added, hLanguage hAdded⟩

theorem stay (v : α) (h : [] ∈ L) :
    Attempt.Completes (.stay (some v) : Attempt c α) c.tokens.tail L :=
  fun _ _ => .inl ⟨v, c, [], yields_stay.mpr ⟨rfl, rfl⟩, rfl, h⟩

theorem advancing {s : Attempt c.advance α} (h : s.Completes ahead L) :
    Attempt.Completes (.advancing s : Attempt c α) ahead L := by
  intro hPlain hEnd
  rcases h hPlain hEnd with ⟨v, c', taken, hYields, hTaken⟩ | hAdded
  · exact .inl ⟨v, c', taken, yields_advancing.mpr hYields, hTaken⟩
  · exact .inr hAdded

theorem inBlock {s : Attempt c.enterBlock α} (h : s.Completes ahead L) :
    Attempt.Completes (.inBlock s : Attempt c α) ahead L := by
  intro hPlain hEnd
  rcases h hPlain hEnd with ⟨v, c', taken, hYields, hTaken⟩ | hAdded
  · exact .inl ⟨v, c'.leaveBlock, taken, yields_inBlock.mpr ⟨c', hYields, rfl⟩, hTaken⟩
  · exact .inr hAdded

theorem mapValue {s : Attempt c α} (f : α → β) (h : s.Completes ahead L) :
    (s.mapValue f).Completes ahead L := by
  intro hPlain hEnd
  rcases h hPlain hEnd with ⟨v, c', taken, hYields, hTaken⟩ | hAdded
  · exact .inl ⟨f v, c', taken, yields_mapValue.mpr ⟨v, hYields, rfl⟩, hTaken⟩
  · exact .inr hAdded

/-- The current token in front of what is read behind it. -/
theorem current {s : Attempt c α} (hEnd : c.current.kind ≠ .endOfInput)
    (hCurrent : [c.current] ∈ K) (h : s.Completes c.tokens.tail L) :
    s.Completes c.tokens (K * L) := by
  intro hPlain hAll
  rw [tokens_eq_cons hEnd] at hPlain ⊢
  rcases h (fun t ht => hPlain t (List.mem_cons_of_mem _ ht)) hAll with
    ⟨v, c', taken, hYields, hAhead, hTaken⟩ | ⟨added, hAdded⟩
  · refine .inl ⟨v, c', c.current :: taken, hYields, ?_, Language.append_mem_mul hCurrent hTaken⟩
    rw [hAhead, List.cons_append]
  · refine .inr ⟨added, ?_⟩
    change [c.current] ++ (c.tokens.tail ++ added) ∈ K * L
    exact Language.append_mem_mul hCurrent hAdded

/-- An attempt that goes on, with `r`, where the attempt `s` has ended. -/
theorem after {s : Attempt c α} {t : Attempt c β} (hs : s.Completes ahead K)
    (hL : ∃ ts, ts ∈ L) (hFirst : ∀ d ∈ s.diagnostics, d ∈ t.diagnostics)
    (hRest : ∀ v c', s.Yields v c' → ∃ r : Attempt c' β, r.Completes c'.tokens.tail L ∧
      (∀ d ∈ r.diagnostics, d ∈ t.diagnostics) ∧ ∀ w c'', r.Yields w c'' → t.Yields w c'') :
    t.Completes ahead (K * L) := by
  intro hPlain hEnd
  rcases hs hPlain (fun d hd => hEnd d (hFirst d hd)) with
    ⟨v, c', taken, hYields, rfl, hTaken⟩ | ⟨added, hAdded⟩
  · obtain ⟨r, hCompletes, hDiagnostics, hYieldsRest⟩ := hRest v c' hYields
    rcases hCompletes (fun t ht => hPlain t (List.mem_append_right _ ht))
      (fun d hd => hEnd d (hDiagnostics d hd)) with
      ⟨w, c'', more, hYields', hAhead, hMore⟩ | ⟨added, hAdded⟩
    · refine .inl ⟨w, c'', taken ++ more, hYieldsRest w c'' hYields', ?_,
        Language.append_mem_mul hTaken hMore⟩
      rw [hAhead, List.append_assoc]
    · refine .inr ⟨added, ?_⟩
      rw [List.append_assoc]
      exact Language.append_mem_mul hTaken hAdded
  · obtain ⟨more, hMore⟩ := hL
    refine .inr ⟨added ++ more, ?_⟩
    rw [← List.append_assoc]
    exact Language.append_mem_mul hAdded hMore

theorem andThen {s : Attempt c α}
    {f : α → (c' : Cursor) → c'.remaining ≤ c.remaining → Attempt c' β}
    (hs : s.Completes ahead K) (hL : ∃ ts, ts ∈ L)
    (hf : ∀ v c' h, (f v c' h).Completes c'.tokens.tail L) :
    (s.andThen f).Completes ahead (K * L) := by
  refine hs.after hL ?_ ?_
  · intro d hd
    cases hValue : s.value with
    | none => rwa [andThen_of_none hValue]
    | some v =>
      rw [andThen_of_some hValue]
      exact List.mem_append_left _ hd
  · rintro v c' ⟨hValue, hNone, rfl⟩
    refine ⟨f v s.cursor s.remaining_le, hf _ _ _, ?_, ?_⟩
    · intro d hd
      rw [andThen_of_some hValue]
      exact List.mem_append_right _ hd
    · intro w c'' hYields
      exact Yields.andThen ⟨hValue, hNone, rfl⟩ fun _ => hYields

theorem orRecover {s : Attempt c α}
    {found : α → (c' : Cursor) → c'.remaining ≤ c.remaining → Attempt c' β}
    {lost : Bool → (c' : Cursor) → c'.remaining ≤ c.remaining → Attempt c' β}
    (hs : s.Completes ahead K) (hL : ∃ ts, ts ∈ L)
    (hFound : ∀ v c' h, (found v c' h).Completes c'.tokens.tail L) :
    Attempt.Completes (s.orRecover found lost : Attempt c β) ahead (K * L) := by
  refine hs.after hL ?_ ?_
  · intro d hd
    cases hValue : s.value with
    | none =>
      rw [orRecover_of_none hValue]
      exact List.mem_append_left _ hd
    | some v =>
      rw [orRecover_of_some hValue]
      exact List.mem_append_left _ hd
  · rintro v c' ⟨hValue, hNone, rfl⟩
    rw [orRecover_of_some hValue]
    refine ⟨found v s.cursor s.remaining_le, hFound _ _ _, ?_, ?_⟩
    · intro d hd
      exact List.mem_append_right _ hd
    · intro w c'' hYields
      refine ⟨hYields.value, ?_, hYields.cursor⟩
      rw [Step.diagnostics_bind, hNone, hYields.diagnostics]
      rfl

/-- A required token comes next, or no token does. -/
theorem expect (c : Cursor) {kind : Token.Kind} (hKind : kind ≠ .endOfInput) :
    (c.expect kind).Completes c.tokens.tail kind.language := by
  intro hPlain hEnd
  by_cases hNext : c.upcoming.kind = kind
  · refine .inl ⟨(), c.advance, [c.upcoming], yields_expect_of_kind hNext, ?_,
      mem_language_of_kind hNext⟩
    exact (Passes.advance (hNext ▸ hKind)).passed
  · unfold Cursor.expect at hEnd
    rw [if_neg hNext] at hEnd
    have hUpcoming : c.advance.current.kind = .endOfInput := hEnd _ List.mem_cons_self
    have hNil : c.tokens.tail = [] := tokens_eq_nil (c := c.advance) hPlain hUpcoming
    rw [hNil]
    exact .inr (exists_mem_language_kind kind)

theorem endStatement (c : Cursor) (v : α) :
    (c.endStatement v).Completes c.tokens.tail terminatorLanguage := by
  intro _ _
  by_cases hNext : c.upcoming.kind = .semicolon
  · have hEnd : c.upcoming.kind ≠ .endOfInput := by rw [hNext]; decide
    exact .inl ⟨v, c.advance, [c.upcoming], yields_endStatement.mpr ⟨rfl, (if_pos hNext).symm⟩,
      (Passes.advance hEnd).passed, semicolon_mem_terminator hNext⟩
  · exact .inl ⟨v, c, [], yields_endStatement.mpr ⟨rfl, (if_neg hNext).symm⟩, rfl,
      nil_mem_terminator⟩

end Attempt.Completes

/-! ## Concatenations within the languages of the parts -/

section concatenations

open Token.Kind Nonterminal

/-- An operator in front of what it applies to is an operand. -/
theorem unary_operand_le (op : UnaryOperator) :
    op.kind.language * expressionLanguage .unary ≤ operand.language := by
  rintro _ ⟨_, ⟨t, ht, rfl⟩, ts, ⟨-, hOperand⟩, rfl⟩
  obtain ⟨hDerives, hRange⟩ := hOperand rfl
  refine ⟨?_, integersInRange_append.mpr ⟨?_, hRange⟩⟩
  · rw [List.map_append, List.map_singleton, ht]
    exact .unary op hDerives
  · cases op <;> simp [IntegersInRange, ht, UnaryOperator.kind]

/-- An expression in parentheses is an operand. -/
theorem group_le :
    leftParen.language * (expressionLanguage .lowest * rightParen.language) ≤
      operand.language := by
  rintro _ ⟨_, ⟨l, hLeft, rfl⟩, _, ⟨ts, ⟨⟨hInner, hRange⟩, -⟩, _, ⟨r, hRight, rfl⟩, rfl⟩, rfl⟩
  refine ⟨?_, by simp_all [integersInRange_cons, integersInRange_append, integersInRange_nil]⟩
  simp only [List.map_append, List.map_singleton, hLeft, hRight]
  exact .group hInner

/-- A test in parentheses, a block and an alternative are an operand behind an `if`. -/
theorem conditional_le :
    ifWord.language * (leftParen.language * (expressionLanguage .lowest * (rightParen.language *
      (leftBrace.language * (blockLanguage * alternative.language))))) ≤ operand.language := by
  rintro _ ⟨_, ⟨i, hIf, rfl⟩, _, ⟨_, ⟨l, hLeft, rfl⟩, _, ⟨ts, ⟨⟨hTest, hRangeTest⟩, -⟩, _,
    ⟨_, ⟨r, hRight, rfl⟩, _, ⟨_, ⟨b, hBrace, rfl⟩, _, ⟨_, ⟨us, ⟨hBody, hRangeBody⟩, _,
    ⟨e, hClose, rfl⟩, rfl⟩, vs, ⟨hOther, hRangeOther⟩, rfl⟩, rfl⟩, rfl⟩, rfl⟩, rfl⟩, rfl⟩
  refine ⟨?_, by simp_all [integersInRange_cons, integersInRange_append]⟩
  have hDerives := Derives.conditional hTest (.block hBody) hOther
  simpa [hIf, hLeft, hRight, hBrace, hClose] using hDerives

/-- An operand and the operators that continue it are an expression. -/
theorem operand_operators_le (limit : Precedence) :
    operand.language * operatorsLanguage limit ≤ expressionLanguage limit := by
  rintro _ ⟨ts, hOperand, us, hOperators, rfl⟩
  exact hOperators ts hOperand

/-- What continues an operand continues an expression, which ends with one. -/
theorem append_mem_expression {n : Nonterminal} {ks : List Token.Kind} (hDerives : Derives n ks)
    (hExpression : n = .expression) {ts us : List Token} (hKinds : ts.map Token.kind = ks)
    (hRange : IntegersInRange ts)
    (hContinue : ∀ vs ∈ operand.language, vs ++ us ∈ expression.language) :
    ts ++ us ∈ expression.language := by
  induction hDerives generalizing ts with
  | lastOperand hOperand =>
    subst hKinds
    exact hContinue ts ⟨hOperand, hRange⟩
  | operation hOperand op _ _ ih =>
    obtain ⟨vs, ws, rfl, rfl, hLast⟩ := List.map_eq_append_iff.mp hKinds
    obtain ⟨t, ws, rfl, ht, hLast⟩ := List.map_eq_cons_iff.mp hLast
    rw [integersInRange_append, integersInRange_cons] at hRange
    obtain ⟨hJoined, hRangeJoined⟩ := ih rfl hLast hRange.2.2
    refine ⟨?_, ?_⟩
    · have hAll := Derives.operation hOperand op hJoined
      simpa [ht] using hAll
    · rw [List.append_assoc, List.cons_append, integersInRange_append, integersInRange_cons]
      exact ⟨hRange.1, hRange.2.1, hRangeJoined⟩
  | _ => cases hExpression

/-- An operator with its right operand, and what continues the whole, continue an expression if the
operator binds tighter than the limit. -/
theorem operation_le {limit : Precedence} {op : BinaryOperator} (hLimit : limit < op.precedence) :
    op.kind.language * (expressionLanguage op.precedence * operatorsLanguage limit) ≤
      operatorsLanguage limit := by
  rintro _ ⟨_, ⟨t, ht, rfl⟩, _, ⟨ts, hRight, us, hRest, rfl⟩, rfl⟩ vs hLeft
  have hStrong : limit ≠ .unary := by
    rintro rfl
    exact Precedence.not_lt.mpr op.precedence_le_unary hLimit
  refine ⟨?_, fun h => absurd h hStrong⟩
  have hJoined : ts ++ us ∈ expression.language :=
    append_mem_expression hRight.1.1 rfl rfl hRight.1.2 fun vs hOperand => (hRest vs hOperand).1
  refine ⟨?_, ?_⟩
  · have hDerives := Derives.operation hLeft.1 op hJoined.1
    simpa [ht] using hDerives
  · have hOperator : t.kind ≠ .integer := by
      rw [ht]
      cases op <;> decide
    have hRange := hJoined.2
    simp_all [integersInRange_cons, integersInRange_append, hLeft.2]

/-- A block behind an `else` is an alternative. -/
theorem elseBlock_le :
    elseWord.language * (leftBrace.language * blockLanguage) ≤ alternative.language := by
  rintro _ ⟨_, ⟨e, hElse, rfl⟩, _, ⟨_, ⟨l, hLeft, rfl⟩, _, ⟨ts, ⟨hBody, hRange⟩, _,
    ⟨r, hRight, rfl⟩, rfl⟩, rfl⟩, rfl⟩
  refine ⟨?_, by simp_all [integersInRange_cons, integersInRange_append, integersInRange_nil]⟩
  have hDerives := Derives.alternative (.block hBody)
  simpa [hElse, hLeft, hRight] using hDerives

/-- A name, the mark of assignment and an expression are a statement behind a `let`. -/
theorem binding_le :
    letWord.language * (identifier.language * (assign.language *
      (expressionLanguage .lowest * terminatorLanguage))) ≤ statement.language := by
  rintro _ ⟨_, ⟨w, hLet, rfl⟩, _, ⟨_, ⟨n, hName, rfl⟩, _, ⟨_, ⟨a, hAssign, rfl⟩, _,
    ⟨ts, ⟨⟨hValue, hRange⟩, -⟩, us, ⟨hEnd, hRangeEnd⟩, rfl⟩, rfl⟩, rfl⟩, rfl⟩
  refine ⟨?_, by simp_all [integersInRange_cons, integersInRange_append]⟩
  have hDerives := Derives.binding hValue hEnd
  simpa [hLet, hName, hAssign] using hDerives

/-- An expression is a statement behind a `return`. -/
theorem returning_le :
    returnWord.language * (expressionLanguage .lowest * terminatorLanguage) ≤
      statement.language := by
  rintro _ ⟨_, ⟨w, hReturn, rfl⟩, _, ⟨ts, ⟨⟨hValue, hRange⟩, -⟩, us, ⟨hEnd, hRangeEnd⟩, rfl⟩, rfl⟩
  refine ⟨?_, by simp_all [integersInRange_cons, integersInRange_append]⟩
  have hDerives := Derives.returning hValue hEnd
  simpa [hReturn] using hDerives

/-- An expression is a statement, with or without a semicolon. -/
theorem expression_terminator_le :
    expressionLanguage .lowest * terminatorLanguage ≤ statement.language := by
  rintro _ ⟨ts, ⟨⟨hValue, hRange⟩, -⟩, us, ⟨hEnd, hRangeEnd⟩, rfl⟩
  refine ⟨?_, integersInRange_append.mpr ⟨hRange, hRangeEnd⟩⟩
  rw [List.map_append]
  exact .expression hValue hEnd

/-- A statement in front of others makes one more. -/
theorem statement_statements_le :
    statement.language * statements.language ≤ statements.language := by
  rintro _ ⟨ts, ⟨hHead, hRange⟩, us, ⟨hTail, hRange'⟩, rfl⟩
  refine ⟨?_, integersInRange_append.mpr ⟨hRange, hRange'⟩⟩
  rw [List.map_append]
  exact .moreStatements hHead hTail

/-- A statement in front of what is left of a block makes one more. -/
theorem statement_block_le : statement.language * blockLanguage ≤ blockLanguage := by
  rw [blockLanguage, ← mul_assoc]
  exact mul_le_mul_left statement_statements_le _

end concatenations

/-! ## Reading -/

namespace Cursor

/-- The tokens at the cursor start a statement that is taken from them, or can be continued
to one. -/
def CompletesStatement (c : Cursor) : Prop :=
  (statement c).Completes c.tokens Nonterminal.statement.language

/-- The same of an expression whose operators bind tighter than the limit. -/
def CompletesExpression (limit : Precedence) (c : Cursor) : Prop :=
  (expression limit c).Completes c.tokens (expressionLanguage limit)

/-- The operators that continue an expression are looked for behind the current token, the last one
of the expression on their left. -/
def CompletesOperators (limit : Precedence) (left : Expr) (c : Cursor) : Prop :=
  (operators limit left c).Completes c.tokens.tail (operatorsLanguage limit)

/-- The tokens at the cursor start an operand that is taken from them, or can be continued
to one. -/
def CompletesOperand (c : Cursor) : Prop :=
  (operand c).Completes c.tokens Nonterminal.operand.language

/-- An alternative is looked for behind the current token, the brace that closes the consequence. -/
def CompletesAlternative (c : Cursor) : Prop :=
  (alternative c).Completes c.tokens.tail Nonterminal.alternative.language

/-- What a block holds, and the brace that closes it, stand behind the brace that opens it. -/
def CompletesBlock (c : Cursor) : Prop :=
  (block c).Completes c.tokens.tail blockLanguage

/-- Inside a block, what is left of it starts at the cursor. -/
def CompletesBlockRest (c : Cursor) : Prop :=
  (blockRest c).Completes c.tokens blockLanguage

variable {c : Cursor}

/-! ## Operands -/

theorem completesOperand_of_isOperand {e : Expr} (h : c.current.IsOperand e) :
    CompletesOperand c := by
  unfold CompletesOperand
  rw [operand_of_isOperand h, ← mul_one Nonterminal.operand.language]
  exact .current h.kind_ne_endOfInput h.mem_operand (.stay e Language.nil_mem_one)

theorem completesOperand_of_bad_integer (hKind : c.current.kind = .integer)
    (hValue : Integer.ofText? c.current.literal = none) : CompletesOperand c := by
  intro _ hEnd
  rw [operand_of_bad_integer hKind hValue] at hEnd
  exact (hEnd _ List.mem_cons_self).elim

theorem completesOperand_of_unary (op : UnaryOperator)
    (hOp : UnaryOperator.ofKind? c.current.kind = some op)
    (ih : CompletesExpression .unary c.advance) : CompletesOperand c := by
  have hKind := UnaryOperator.ofKind?_eq_some_iff.mp hOp
  unfold CompletesOperand
  rw [operand_of_unary op hOp]
  refine Attempt.Completes.mono ?_ (unary_operand_le op)
  exact .current (hKind ▸ op.kind_ne_endOfInput) (mem_language_of_kind hKind)
    (.advancing (.mapValue _ ih))

theorem completesOperand_of_leftParen (hKind : c.current.kind = .leftParen)
    (ih : CompletesExpression .lowest c.advance) : CompletesOperand c := by
  unfold CompletesOperand
  rw [operand_of_leftParen hKind]
  refine Attempt.Completes.mono ?_ group_le
  refine .current (by rw [hKind]; decide) (mem_language_of_kind hKind) (.advancing ?_)
  exact .andThen ih (exists_mem_language_kind _) fun _ c' _ =>
    .mapValue _ (.expect c' (by decide))

theorem completesOperand_of_ifWord (hKind : c.current.kind = .ifWord)
    (ihTest : ∀ c' : Cursor, c'.remaining ≤ c.remaining → CompletesExpression .lowest c'.advance)
    (ihBlock : ∀ c' : Cursor, c'.remaining ≤ c.remaining →
      ∀ c'' : Cursor, c''.remaining ≤ c'.advance.remaining → CompletesBlock c'')
    (ihOther : ∀ c' : Cursor, c'.remaining ≤ c.remaining →
      ∀ c'' : Cursor, c''.remaining ≤ c'.advance.remaining → CompletesAlternative c'') :
    CompletesOperand c := by
  unfold CompletesOperand
  rw [operand_of_ifWord hKind]
  refine Attempt.Completes.mono ?_ conditional_le
  refine .current (by rw [hKind]; decide) (mem_language_of_kind hKind) ?_
  have hBody := exists_mem_mul exists_mem_block ⟨_, nil_mem_alternative⟩
  have hBraced := exists_mem_mul (exists_mem_language_kind .leftBrace) hBody
  have hClosed := exists_mem_mul (exists_mem_language_kind .rightParen) hBraced
  have hTest := exists_mem_mul (exists_mem_expression .lowest) hClosed
  refine .andThen (.expect c (by decide)) hTest fun _ c₁ h₁ => .advancing ?_
  refine .andThen (ihTest c₁ h₁) hClosed fun _ c₂ h₂ => ?_
  refine .andThen (.expect c₂ (by decide)) hBraced fun _ c₃ h₃ => ?_
  refine .andThen (.expect c₃ (by decide)) hBody fun _ c₄ h₄ => ?_
  have hLess := Nat.le_trans h₄ (Nat.le_trans h₃ h₂)
  refine .andThen (ihBlock c₁ h₁ c₄ hLess) ⟨_, nil_mem_alternative⟩ fun _ c₅ h₅ => ?_
  exact .mapValue _ (ihOther c₁ h₁ c₅ (Nat.le_trans h₅ hLess))

theorem completesOperand_of_not_startsOperand (hStarts : c.current.kind.startsOperand = false) :
    CompletesOperand c := by
  intro hPlain hEnd
  rw [operand_of_not_startsOperand hStarts] at hEnd
  have hCurrent : c.current.kind = .endOfInput := hEnd _ List.mem_cons_self
  rw [tokens_eq_nil hPlain hCurrent]
  exact .inr ⟨_, trueWord_mem_operand⟩

/-! ## Expressions -/

theorem completesExpression_of_operand {limit : Precedence} (ihOperand : CompletesOperand c)
    (ihOperators : ∀ (left : Expr) (c' : Cursor), c'.remaining ≤ c.remaining →
      CompletesOperators limit left c') : CompletesExpression limit c := by
  unfold CompletesExpression
  rw [Cursor.expression]
  refine Attempt.Completes.mono ?_ (operand_operators_le limit)
  exact .andThen ihOperand ⟨_, nil_mem_operatorsLanguage limit⟩ ihOperators

theorem completesOperators_of_stronger {limit : Precedence} {left : Expr} {op : BinaryOperator}
    (hOp : BinaryOperator.ofKind? c.upcoming.kind = some op) (hLimit : limit < op.precedence)
    (ihRight : CompletesExpression op.precedence c.advance.advance)
    (ihRest : ∀ (right : Expr) (c' : Cursor), c'.remaining ≤ c.advance.advance.remaining →
      CompletesOperators limit (.binary op left right) c') : CompletesOperators limit left c := by
  have hKind : c.advance.current.kind = op.kind := BinaryOperator.ofKind?_eq_some_iff.mp hOp
  unfold CompletesOperators
  rw [operators_of_stronger hOp hLimit]
  refine Attempt.Completes.mono ?_ (operation_le hLimit)
  refine .advancing (.current (hKind ▸ op.kind_ne_endOfInput) (mem_language_of_kind hKind) ?_)
  exact .advancing (.andThen ihRight ⟨_, nil_mem_operatorsLanguage limit⟩ ihRest)

theorem completesOperators_of_stops {limit : Precedence} {left : Expr} (hStops : c.Stops limit) :
    CompletesOperators limit left c := by
  unfold CompletesOperators
  rw [operators_of_stops hStops]
  exact .stay left (nil_mem_operatorsLanguage limit)

/-! ## Statements -/

theorem completesStatement_of_letWord (hKind : c.current.kind = .letWord)
    (ih : ∀ c' : Cursor, c'.remaining ≤ c.remaining → CompletesExpression .lowest c'.advance) :
    CompletesStatement c := by
  unfold CompletesStatement
  rw [statement_of_letWord hKind]
  refine Attempt.Completes.mono ?_ binding_le
  refine .current (by rw [hKind]; decide) (mem_language_of_kind hKind) ?_
  have hValue := exists_mem_mul (exists_mem_expression .lowest) ⟨_, nil_mem_terminator⟩
  have hAssign := exists_mem_mul (exists_mem_language_kind .assign) hValue
  refine .andThen (.expect c (by decide)) hAssign fun _ c₁ h₁ => ?_
  refine .andThen (.expect c₁ (by decide)) hValue fun _ c₂ h₂ => ?_
  exact .advancing (.andThen (ih c₂ (Nat.le_trans h₂ h₁)) ⟨_, nil_mem_terminator⟩
    fun _ c₃ _ => .endStatement c₃ _)

theorem completesStatement_of_returnWord (hKind : c.current.kind = .returnWord)
    (ih : CompletesExpression .lowest c.advance) : CompletesStatement c := by
  unfold CompletesStatement
  rw [statement_of_returnWord hKind]
  refine Attempt.Completes.mono ?_ returning_le
  refine .current (by rw [hKind]; decide) (mem_language_of_kind hKind) ?_
  exact .advancing (.andThen ih ⟨_, nil_mem_terminator⟩ fun _ c' _ => .endStatement c' _)

theorem completesStatement_of_expression (hLet : c.current.kind ≠ .letWord)
    (hReturn : c.current.kind ≠ .returnWord) (ih : CompletesExpression .lowest c) :
    CompletesStatement c := by
  unfold CompletesStatement
  rw [statement_of_expression hLet hReturn]
  refine Attempt.Completes.mono ?_ expression_terminator_le
  exact .andThen ih ⟨_, nil_mem_terminator⟩ fun _ c' _ => .endStatement c' _

/-! ## Blocks -/

theorem completesAlternative_of_elseWord (hElse : c.upcoming.kind = .elseWord)
    (ih : ∀ c' : Cursor, c'.remaining ≤ c.advance.remaining → CompletesBlock c') :
    CompletesAlternative c := by
  unfold CompletesAlternative
  rw [Cursor.alternative, if_pos hElse]
  refine Attempt.Completes.mono ?_ elseBlock_le
  have hEnd : c.advance.current.kind ≠ .endOfInput := by rw [current_advance, hElse]; decide
  refine .advancing (.current hEnd (mem_language_of_kind hElse) ?_)
  exact .andThen (.expect _ (by decide)) exists_mem_block fun _ c' h => .mapValue _ (ih c' h)

theorem completesAlternative_of_ne (hElse : c.upcoming.kind ≠ .elseWord) :
    CompletesAlternative c := by
  unfold CompletesAlternative
  rw [Cursor.alternative, if_neg hElse]
  exact .stay none nil_mem_alternative

theorem completesBlock_of_rest (ih : CompletesBlockRest c.enterBlock) : CompletesBlock c := by
  unfold CompletesBlock
  rw [Cursor.block]
  exact .inBlock ih

theorem completesBlockRest_of_rightBrace (hBrace : c.current.kind = .rightBrace) :
    CompletesBlockRest c := by
  intro _ _
  rw [blockRest_of_rightBrace hBrace]
  refine .inl ⟨[], c.closeBlock, [c.current], ⟨rfl, rfl, rfl⟩, ?_, ?_⟩
  · exact tokens_eq_cons (by rw [hBrace]; decide)
  · exact Language.append_mem_mul nil_mem_statements (mem_language_of_kind hBrace)

theorem completesBlockRest_of_end (hEnd : c.current.kind = .endOfInput) : CompletesBlockRest c := by
  intro hPlain _
  rw [tokens_eq_nil hPlain hEnd]
  exact .inr exists_mem_block

theorem completesBlockRest_of_statement (hBrace : c.current.kind ≠ .rightBrace)
    (hEnd : c.current.kind ≠ .endOfInput) (ihStatement : CompletesStatement c)
    (ihRest : ∀ c' : Cursor, c'.remaining ≤ c.remaining → CompletesBlockRest c'.advance) :
    CompletesBlockRest c := by
  unfold CompletesBlockRest
  rw [blockRest, if_neg hBrace, dif_neg hEnd]
  refine Attempt.Completes.mono ?_ statement_block_le
  exact .orRecover ihStatement exists_mem_block fun _ c' h =>
    .advancing (.mapValue _ (ihRest c' h))

/-! ## The induction -/

/-- Each function that reads can be completed if the functions it calls can. -/
theorem completes_cases : ReadingCases CompletesStatement CompletesExpression
    CompletesOperators CompletesOperand CompletesAlternative CompletesBlock
    CompletesBlockRest where
  binding := completesStatement_of_letWord
  returning := completesStatement_of_returnWord
  expressionStatement := completesStatement_of_expression
  expression := completesExpression_of_operand
  stronger := completesOperators_of_stronger
  stops := completesOperators_of_stops
  single := completesOperand_of_isOperand
  badInteger := completesOperand_of_bad_integer
  unary := completesOperand_of_unary
  group := completesOperand_of_leftParen
  conditional := completesOperand_of_ifWord
  noOperand := completesOperand_of_not_startsOperand
  alternative := completesAlternative_of_elseWord
  noAlternative := completesAlternative_of_ne
  block := completesBlock_of_rest
  closed := completesBlockRest_of_rightBrace
  unclosed := completesBlockRest_of_end
  more := completesBlockRest_of_statement

theorem completes_statement (c : Cursor) : CompletesStatement c :=
  completes_cases.all.1 c

/-- A program that breaks off can be completed. -/
theorem exists_completion (hPlain : ∀ t ∈ c.tokens, t.kind ≠ .endOfInput)
    (h : ∀ d ∈ (program c).diagnostics, d.MentionsEnd) :
    ∃ added, c.tokens ++ added ∈ Nonterminal.statements.language := by
  induction c using program.induct with
  | case1 c hEnd =>
    rw [tokens_eq_nil hPlain hEnd]
    exact ⟨[], nil_mem_statements⟩
  | case2 c hEnd ih =>
    have hFirst : ∀ d ∈ (statement c).diagnostics, d.MentionsEnd := by
      intro d hd
      refine h d ?_
      cases hValue : (statement c).value with
      | none =>
        rw [program_of_none hEnd hValue]
        exact List.mem_append_left _ hd
      | some s =>
        rw [program_of_some hEnd hValue]
        exact List.mem_append_left _ hd
    rcases completes_statement c hPlain hFirst with
      ⟨s, c', taken, ⟨hValue, -, rfl⟩, hTokens, hTaken⟩ | ⟨added, hAdded⟩
    · rw [program_of_some hEnd hValue] at h
      rw [hTokens] at hPlain ⊢
      obtain ⟨added, hAdded⟩ := ih _ (statement c).remaining_le
        (fun t ht => hPlain t (List.mem_append_right _ ht))
        (fun d hd => h d (List.mem_append_right _ hd))
      refine ⟨added, ?_⟩
      rw [List.append_assoc]
      exact statement_statements_le (Language.append_mem_mul hTaken hAdded)
    · have hAll := statement_statements_le (Language.append_mem_mul hAdded nil_mem_statements)
      rw [List.append_nil] at hAll
      exact ⟨added, hAll⟩

end Cursor

end MonkeyLang
