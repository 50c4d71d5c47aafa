import MonkeyLang.Proofs.Bookkeeping.Blocks
import MonkeyLang.Proofs.Grammar

/-!
# The tokens of a phrase

A phrase that is read takes its tokens in one piece, from the token where reading begins to the one
where it ends. Which tokens these are is told by the tree: every node has its own, in order. Only
what stands between the braces of a block need not be well formed. A block holds what its body is
parsed to as a program, with malformed statements left out.

* `Spans`, `SpansBlock`, `SpansAlternative`, `SpansStatement`, `SpansOperation` : the tokens of a
  tree.
* `Attempt.Reads` : an attempt takes tokens with a given property, with one rule for each way to
  build attempts.
* `reads_cases` collects the cases for the induction over reading.
-/

namespace MonkeyLang

open Cursor

/-! ## Trees and their tokens -/

/-- The tokens of a block, from its opening brace to the partner of that brace. -/
inductive SpansBlock : List Statement → List Token → Prop
  | mk {l r ts} (hLeft : l.kind = .leftBrace) (hRight : r.kind = .rightBrace)
      (hBody : Balanced ts) : SpansBlock (parse ts).value (l :: (ts ++ [r]))

/-- The tokens of the alternative of a conditional, if there is one. -/
inductive SpansAlternative : Option (List Statement) → List Token → Prop
  | none : SpansAlternative none []
  | some {e ss ts} (h : e.kind = .elseWord) (body : SpansBlock ss ts) :
      SpansAlternative (some ss) (e :: ts)

/-- The tokens of an expression. How strongly its operators bind is left open. -/
inductive Spans : Expr → List Token → Prop
  | single {t e} (h : t.IsOperand e) : Spans e [t]
  | unary {t e ts} (op : UnaryOperator) (h : t.kind = op.kind) (right : Spans e ts) :
      Spans (.unary op e) (t :: ts)
  | binary {t left right ts us} (op : BinaryOperator) (h : t.kind = op.kind)
      (hLeft : Spans left ts) (hRight : Spans right us) :
      Spans (.binary op left right) (ts ++ t :: us)
  | group {l r e ts} (hLeft : l.kind = .leftParen) (hRight : r.kind = .rightParen)
      (inner : Spans e ts) : Spans e (l :: (ts ++ [r]))
  | conditional {i l r e ss other ts us vs} (hIf : i.kind = .ifWord)
      (hLeft : l.kind = .leftParen) (hRight : r.kind = .rightParen) (test : Spans e ts)
      (consequence : SpansBlock ss us) (alternative : SpansAlternative other vs) :
      Spans (.conditional e ss other) (i :: l :: (ts ++ r :: (us ++ vs)))

/-- The tokens that extend an expression by an operator and its right operand. -/
inductive SpansOperation (left : Expr) : Expr → List Token → Prop
  | mk {t right ts} (op : BinaryOperator) (h : t.kind = op.kind) (hRight : Spans right ts) :
      SpansOperation left (.binary op left right) (t :: ts)

/-- The tokens of a statement, with the semicolon that ends it. -/
inductive SpansStatement : Statement → List Token → Prop
  | binding {w n a e ts gap} (hLet : w.kind = .letWord) (hName : n.kind = .identifier)
      (hAssign : a.kind = .assign) (value : Spans e ts) (hGap : gap.map Token.kind ∈ terminators) :
      SpansStatement (.binding n.literal e) (w :: n :: a :: (ts ++ gap))
  | returning {w e ts gap} (hReturn : w.kind = .returnWord) (value : Spans e ts)
      (hGap : gap.map Token.kind ∈ terminators) : SpansStatement (.returning e) (w :: (ts ++ gap))
  | expression {t e ts gap} (value : Spans e (t :: ts)) (hGap : gap.map Token.kind ∈ terminators) :
      SpansStatement (.expression t.literal e) (t :: (ts ++ gap))

/-- An expression begins on a token. -/
theorem Spans.firstKind_ne {e : Expr} {ts : List Token} (h : Spans e ts) :
    firstKind ts ≠ .endOfInput := by
  induction h with
  | single h => exact h.kind_ne_endOfInput
  | unary op h => rw [firstKind_cons, h]; exact op.kind_ne_endOfInput
  | @binary t left right ts us op h hLeft hRight ihLeft ihRight =>
    cases ts with
    | nil => exact absurd rfl ihLeft
    | cons t ts => exact ihLeft
  | group hLeft => rw [firstKind_cons, hLeft]; decide
  | conditional hIf => rw [firstKind_cons, hIf]; decide

theorem SpansBlock.firstKind_ne {ss : List Statement} {ts : List Token} (h : SpansBlock ss ts) :
    firstKind ts ≠ .endOfInput := by
  cases h with
  | mk hLeft => rw [firstKind_cons, hLeft]; decide

theorem SpansOperation.firstKind_ne {left e : Expr} {ts : List Token}
    (h : SpansOperation left e ts) : firstKind ts ≠ .endOfInput := by
  cases h with
  | mk op h => rw [firstKind_cons, h]; exact op.kind_ne_endOfInput

theorem SpansStatement.firstKind_ne {s : Statement} {ts : List Token} (h : SpansStatement s ts) :
    firstKind ts ≠ .endOfInput := by
  cases h with
  | binding hLet => rw [firstKind_cons, hLet]; decide
  | returning hReturn => rw [firstKind_cons, hReturn]; decide
  | expression value => exact value.firstKind_ne

/-! ## Reading tokens -/

/-- An attempt that begins in the text ends in it. If it succeeds, the tokens that it passes behind
the current one satisfy the postcondition. -/
structure Attempt.Reads (text : List Token) {c : Cursor} {α : Type} (s : Attempt c α)
    (W : α → Cursor → List Token → Prop) : Prop where
  placed : c.Placed text → s.cursor.Placed text
  passes : c.Placed text → ∀ v, s.value = some v → ∃ ts, c.Passes ts s.cursor ∧ W v s.cursor ts

namespace Attempt.Reads

variable {text : List Token} {c : Cursor} {α β : Type}

theorem mono {s : Attempt c α} {U W : α → Cursor → List Token → Prop} (h : s.Reads text U)
    (hWeaker : ∀ v c' ts, U v c' ts → W v c' ts) : s.Reads text W where
  placed := h.placed
  passes hPlaced v hValue := by
    obtain ⟨ts, hPasses, hPost⟩ := h.passes hPlaced v hValue
    exact ⟨ts, hPasses, hWeaker _ _ _ hPost⟩

theorem stay {W : α → Cursor → List Token → Prop} {v : α} (h : W v c []) :
    Attempt.Reads text (.stay (some v) : Attempt c α) W where
  placed := id
  passes _ w hValue := by
    cases hValue
    exact ⟨[], .refl c, h⟩

theorem fail (d : Diagnostic) (W : α → Cursor → List Token → Prop) :
    Attempt.Reads text (.fail d : Attempt c α) W where
  placed := id
  passes _ _ hValue := nomatch hValue

theorem mapValue {s : Attempt c α} {f : α → β} {W : β → Cursor → List Token → Prop}
    (h : s.Reads text fun v c' ts => W (f v) c' ts) : (s.mapValue f).Reads text W where
  placed := h.placed
  passes hPlaced w hValue := by
    obtain ⟨v, hv, rfl⟩ := Option.map_eq_some_iff.mp hValue
    exact h.passes hPlaced v hv

/-- The next token is passed too. -/
theorem advancing {s : Attempt c.advance α} {W : α → Cursor → List Token → Prop}
    (h : s.Reads text fun v c' ts => c.upcoming.kind ≠ .endOfInput ∧ W v c' (c.upcoming :: ts)) :
    Attempt.Reads text (.advancing s : Attempt c α) W where
  placed hPlaced := h.placed hPlaced.advance
  passes hPlaced v hValue := by
    obtain ⟨ts, hPasses, hNext, hPost⟩ := h.passes hPlaced.advance v hValue
    exact ⟨c.upcoming :: ts, hPasses.of_advance hNext, hPost⟩

theorem andThen {s : Attempt c α}
    {f : α → (c' : Cursor) → c'.remaining ≤ c.remaining → Attempt c' β}
    {U : α → Cursor → List Token → Prop} {W : β → Cursor → List Token → Prop}
    (hs : s.Reads text U)
    (hf : ∀ u c' h ts, U u c' ts → (f u c' h).Reads text fun w c'' us => W w c'' (ts ++ us)) :
    (s.andThen f).Reads text W where
  placed hPlaced := by
    cases hFirst : s.value with
    | none =>
      rw [andThen_of_none hFirst]
      exact hs.placed hPlaced
    | some u =>
      obtain ⟨ts, -, hPost⟩ := hs.passes hPlaced u hFirst
      rw [andThen_of_some hFirst]
      exact (hf u _ _ ts hPost).placed (hs.placed hPlaced)
  passes hPlaced w hValue := by
    cases hFirst : s.value with
    | none =>
      rw [andThen_of_none hFirst] at hValue
      cases hValue
    | some u =>
      obtain ⟨ts, hPasses, hPost⟩ := hs.passes hPlaced u hFirst
      rw [andThen_of_some hFirst] at hValue ⊢
      obtain ⟨us, hPasses', hPost'⟩ :=
        (hf u s.cursor s.remaining_le ts hPost).passes (hs.placed hPlaced) w hValue
      exact ⟨ts ++ us, hPasses.trans hPasses', hPost'⟩

theorem expect (c : Cursor) {kind : Token.Kind} (hKind : kind ≠ .endOfInput) :
    (c.expect kind).Reads text fun _ c' ts =>
      c' = c.advance ∧ c.upcoming.kind = kind ∧ ts = [c.upcoming] := by
  unfold Cursor.expect
  split
  case isTrue hNext =>
    refine ⟨Placed.advance, fun _ _ _ => ?_⟩
    exact ⟨[c.upcoming], .advance (hNext ▸ hKind), rfl, hNext, rfl⟩
  case isFalse => exact .fail _ _

theorem endStatement (c : Cursor) (v : α) :
    (c.endStatement v).Reads text fun w _ ts => w = v ∧ ts.map Token.kind ∈ terminators := by
  unfold Cursor.endStatement
  split
  case isTrue hNext =>
    refine ⟨Placed.advance, fun _ _ hValue => ?_⟩
    cases hValue
    refine ⟨[c.upcoming], .advance (by rw [hNext]; decide), rfl, ?_⟩
    rw [List.map_singleton, hNext]
    decide
  case isFalse => exact .stay ⟨rfl, by decide⟩

end Attempt.Reads

/-! ## Reading phrases -/

namespace Cursor

variable {text : List Token} {c : Cursor}

/-- A statement spans the token it starts at and the tokens passed while reading it. -/
def ReadsStatement (text : List Token) (c : Cursor) : Prop :=
  (statement c).Reads text fun s _ ts => SpansStatement s (c.current :: ts)

/-- An expression spans the token it starts at and the tokens passed while reading it. -/
def ReadsExpression (text : List Token) (limit : Precedence) (c : Cursor) : Prop :=
  (expression limit c).Reads text fun e _ ts => Spans e (c.current :: ts)

/-- The operators extend an expression that has been read, with the tokens `front`. -/
def ReadsOperators (text : List Token) (limit : Precedence) (left : Expr) (c : Cursor) : Prop :=
  ∀ front, Spans left front →
    (operators limit left c).Reads text fun e _ ts => Spans e (front ++ ts)

/-- An operand spans the token it starts at and the tokens passed while reading it. -/
def ReadsOperand (text : List Token) (c : Cursor) : Prop :=
  (operand c).Reads text fun e _ ts => Spans e (c.current :: ts)

/-- An alternative spans the tokens passed while reading it: it starts at the token ahead, if there
is one. -/
def ReadsAlternative (text : List Token) (c : Cursor) : Prop :=
  (alternative c).Reads text fun other _ ts => SpansAlternative other ts

/-- A block that starts at a brace spans that brace and the tokens passed while reading it. -/
def ReadsBlock (text : List Token) (c : Cursor) : Prop :=
  c.current.kind = .leftBrace → (block c).Reads text fun ss _ ts => SpansBlock ss (c.current :: ts)

/-! ### Blocks -/

/-- How many tokens stand between two places in the text is told by the positions. -/
theorem Placed.passes {c' : Cursor} {ts : List Token} (h : c.Placed text) (h' : c'.Placed text)
    (hStart : c.tokens ≠ []) (hEnd : c'.tokens ≠ [])
    (hTokens : c.tokens.tail = ts ++ c'.tokens.tail) : c.Passes ts c' := by
  have hLength := congrArg List.length hTokens
  have hStartPos := List.length_pos_iff.mpr hStart
  have hEndPos := List.length_pos_iff.mpr hEnd
  simp only [h.tokens, h'.tokens, List.length_append, List.length_tail, List.length_drop]
    at hLength hStartPos hEndPos
  have hPosition : c'.position = c.position + ts.length := by omega
  refine ⟨?_, hTokens, hPosition⟩
  rw [h'.tokens, h.tokens, List.drop_drop, hPosition]

theorem reads_block (hPlain : ∀ t ∈ text, t.kind ≠ .endOfInput) (c : Cursor) :
    ReadsBlock text c := by
  intro hOpen
  refine ⟨(restored_block c).placed, fun hPlaced ss hValue => ?_⟩
  obtain ⟨body, closed, rest, hTail, hEnd, hClosed, hBalanced, rfl⟩ :=
    exists_body_of_block (hPlaced.plain hPlain) hPlaced.settled hOpen hValue
  have hPlaced' := (restored_block c).placed hPlaced
  have hStart : c.tokens ≠ [] := tokens_ne_nil (by rw [hOpen]; decide)
  have hPasses : c.Passes (body ++ [closed]) (block c).cursor := by
    refine hPlaced.passes hPlaced' hStart (hEnd ▸ List.cons_ne_nil _ _) ?_
    rw [hTail, hEnd, List.append_assoc]
    rfl
  exact ⟨body ++ [closed], hPasses, .mk hOpen hClosed hBalanced⟩

theorem readsAlternative_of_elseWord (hPlain : ∀ t ∈ text, t.kind ≠ .endOfInput)
    (hElse : c.upcoming.kind = .elseWord) : ReadsAlternative text c := by
  unfold ReadsAlternative
  rw [alternative, if_pos hElse]
  refine .advancing (.andThen (.expect _ (by decide)) fun _ _ h _ hBrace => ?_)
  obtain ⟨rfl, hBrace, rfl⟩ := hBrace
  have hBlock := reads_block hPlain c.advance.advance hBrace
  refine .mapValue (hBlock.mono fun ss c' ts hBlock => ?_)
  exact ⟨by rw [hElse]; decide, .some hElse hBlock⟩

theorem readsAlternative_of_ne (hElse : c.upcoming.kind ≠ .elseWord) : ReadsAlternative text c := by
  unfold ReadsAlternative
  rw [alternative, if_neg hElse]
  exact .stay .none

/-! ### Operands -/

theorem readsOperand_of_isOperand {e : Expr} (h : c.current.IsOperand e) : ReadsOperand text c := by
  unfold ReadsOperand
  rw [operand_of_isOperand h]
  exact .stay (.single h)

theorem readsOperand_of_bad_integer (hKind : c.current.kind = .integer)
    (hValue : Integer.ofText? c.current.literal = none) : ReadsOperand text c := by
  unfold ReadsOperand
  rw [operand_of_bad_integer hKind hValue]
  exact .fail _ _

theorem readsOperand_of_unary (op : UnaryOperator)
    (hOp : UnaryOperator.ofKind? c.current.kind = some op)
    (ih : ReadsExpression text .unary c.advance) : ReadsOperand text c := by
  unfold ReadsOperand
  rw [operand_of_unary op hOp]
  refine .advancing (.mapValue (ih.mono fun e c' ts hRight => ⟨hRight.firstKind_ne, ?_⟩))
  exact .unary op (UnaryOperator.ofKind?_eq_some_iff.mp hOp) hRight

theorem readsOperand_of_leftParen (hKind : c.current.kind = .leftParen)
    (ih : ReadsExpression text .lowest c.advance) : ReadsOperand text c := by
  unfold ReadsOperand
  rw [operand_of_leftParen hKind]
  refine .advancing (.andThen ih fun inner c₁ _ ts hInner => ?_)
  refine .mapValue ((Attempt.Reads.expect c₁ (by decide)).mono ?_)
  rintro _ c' us ⟨rfl, hRight, rfl⟩
  exact ⟨hInner.firstKind_ne, .group hKind hRight hInner⟩

theorem readsOperand_of_ifWord (hPlain : ∀ t ∈ text, t.kind ≠ .endOfInput)
    (hKind : c.current.kind = .ifWord)
    (ihTest : ∀ c' : Cursor, c'.remaining ≤ c.remaining → ReadsExpression text .lowest c'.advance)
    (ihOther : ∀ c' : Cursor, c'.remaining ≤ c.remaining →
      ∀ c'' : Cursor, c''.remaining ≤ c'.advance.remaining → ReadsAlternative text c'') :
    ReadsOperand text c := by
  unfold ReadsOperand
  rw [operand_of_ifWord hKind]
  refine .andThen (.expect c (by decide)) fun _ _ h₁ _ hLeft => ?_
  obtain ⟨rfl, hLeft, rfl⟩ := hLeft
  refine .advancing (.andThen (ihTest _ h₁) fun test c₂ h₂ ts hTest => ?_)
  refine .andThen (.expect c₂ (by decide)) fun _ _ h₃ _ hRight => ?_
  obtain ⟨rfl, hRight, rfl⟩ := hRight
  refine .andThen (.expect _ (by decide)) fun _ _ h₄ _ hBrace => ?_
  obtain ⟨rfl, hBrace, rfl⟩ := hBrace
  refine .andThen (reads_block hPlain _ hBrace) fun ss c₅ h₅ us hBlock => ?_
  have hLess := Nat.le_trans h₅ (Nat.le_trans h₄ (Nat.le_trans h₃ h₂))
  refine .mapValue ((ihOther _ h₁ c₅ hLess).mono fun other c' vs hOther => ?_)
  refine ⟨hTest.firstKind_ne, ?_⟩
  have hSpans := Spans.conditional hKind hLeft hRight hTest hBlock hOther
  simpa using hSpans

theorem readsOperand_of_not_startsOperand (hStarts : c.current.kind.startsOperand = false) :
    ReadsOperand text c := by
  unfold ReadsOperand
  rw [operand_of_not_startsOperand hStarts]
  exact .fail _ _

/-! ### Expressions -/

theorem readsExpression_of_operand {limit : Precedence} (ihOperand : ReadsOperand text c)
    (ihOperators : ∀ (left : Expr) (c' : Cursor), c'.remaining ≤ c.remaining →
      ReadsOperators text limit left c') : ReadsExpression text limit c := by
  unfold ReadsExpression
  rw [expression]
  exact .andThen ihOperand fun left c' h ts hLeft => ihOperators left c' h _ hLeft

theorem readsOperators_of_stronger {limit : Precedence} {left : Expr} {op : BinaryOperator}
    (hOp : BinaryOperator.ofKind? c.upcoming.kind = some op) (hLimit : limit < op.precedence)
    (ihRight : ReadsExpression text op.precedence c.advance.advance)
    (ihRest : ∀ (right : Expr) (c' : Cursor), c'.remaining ≤ c.advance.advance.remaining →
      ReadsOperators text limit (.binary op left right) c') : ReadsOperators text limit left c := by
  intro front hLeft
  have hKind : c.upcoming.kind = op.kind := BinaryOperator.ofKind?_eq_some_iff.mp hOp
  rw [operators_of_stronger hOp hLimit]
  refine .advancing (.advancing (.andThen ihRight fun right c' h ts hRight => ?_))
  refine (ihRest right c' h _ (.binary op hKind hLeft hRight)).mono fun e c'' us hSpans => ?_
  refine ⟨hRight.firstKind_ne, hKind ▸ op.kind_ne_endOfInput, ?_⟩
  simpa using hSpans

theorem readsOperators_of_stops {limit : Precedence} {left : Expr} (hStops : c.Stops limit) :
    ReadsOperators text limit left c := by
  intro front hLeft
  rw [operators_of_stops hStops]
  exact .stay (by rwa [List.append_nil])

/-! ### Statements -/

theorem readsStatement_of_letWord (hKind : c.current.kind = .letWord)
    (ih : ∀ c' : Cursor, c'.remaining ≤ c.remaining → ReadsExpression text .lowest c'.advance) :
    ReadsStatement text c := by
  unfold ReadsStatement
  rw [statement_of_letWord hKind]
  refine .andThen (.expect c (by decide)) fun _ _ h₁ _ hName => ?_
  obtain ⟨rfl, hName, rfl⟩ := hName
  refine .andThen (.expect _ (by decide)) fun _ _ h₂ _ hAssign => ?_
  obtain ⟨rfl, hAssign, rfl⟩ := hAssign
  refine .advancing (.andThen (ih _ (Nat.le_trans h₂ h₁)) fun value c₃ _ ts hValue => ?_)
  refine (Attempt.Reads.endStatement c₃ _).mono ?_
  rintro _ c' gap ⟨rfl, hGap⟩
  have hSpans := SpansStatement.binding hKind hName hAssign hValue hGap
  exact ⟨hValue.firstKind_ne, hSpans⟩

theorem readsStatement_of_returnWord (hKind : c.current.kind = .returnWord)
    (ih : ReadsExpression text .lowest c.advance) : ReadsStatement text c := by
  unfold ReadsStatement
  rw [statement_of_returnWord hKind]
  refine .advancing (.andThen ih fun value c₁ _ ts hValue => ?_)
  refine (Attempt.Reads.endStatement c₁ _).mono ?_
  rintro _ c' gap ⟨rfl, hGap⟩
  exact ⟨hValue.firstKind_ne, .returning hKind hValue hGap⟩

theorem readsStatement_of_expression (hLet : c.current.kind ≠ .letWord)
    (hReturn : c.current.kind ≠ .returnWord) (ih : ReadsExpression text .lowest c) :
    ReadsStatement text c := by
  unfold ReadsStatement
  rw [statement_of_expression hLet hReturn]
  refine .andThen ih fun value c₁ _ ts hValue => ?_
  refine (Attempt.Reads.endStatement c₁ _).mono ?_
  rintro _ c' gap ⟨rfl, hGap⟩
  exact .expression hValue hGap

/-! ### The induction -/

/-- Blocks are known as a whole, so nothing is asked of their rest. -/
theorem reads_cases (hPlain : ∀ t ∈ text, t.kind ≠ .endOfInput) :
    ReadingCases (ReadsStatement text) (ReadsExpression text) (ReadsOperators text)
      (ReadsOperand text) (ReadsAlternative text) (ReadsBlock text) (fun _ => True) where
  binding := readsStatement_of_letWord
  returning := readsStatement_of_returnWord
  expressionStatement := readsStatement_of_expression
  expression := readsExpression_of_operand
  stronger := readsOperators_of_stronger
  stops := readsOperators_of_stops
  single := readsOperand_of_isOperand
  badInteger := readsOperand_of_bad_integer
  unary := readsOperand_of_unary
  group := readsOperand_of_leftParen
  conditional hKind ihTest _ ihOther := readsOperand_of_ifWord hPlain hKind ihTest ihOther
  noOperand := readsOperand_of_not_startsOperand
  alternative hElse _ := readsAlternative_of_elseWord hPlain hElse
  noAlternative := readsAlternative_of_ne
  block _ := reads_block hPlain _
  closed _ := trivial
  unclosed _ := trivial
  more _ _ _ _ := trivial

/-! ### Single operations -/

/-- Extends an expression by the operator the cursor stands on and its right operand. -/
def operation (left : Expr) (c : Cursor) : Attempt c Expr :=
  match BinaryOperator.ofKind? c.current.kind with
  | some op => .advancing ((expression op.precedence c.advance).mapValue (.binary op left))
  | none => .stay none

variable {left : Expr} {op : BinaryOperator}

/-- The right operand of an operator is an expression whose operators bind tighter. -/
theorem operation_of_operator (h : BinaryOperator.ofKind? c.current.kind = some op) :
    operation left c =
      .advancing ((expression op.precedence c.advance).mapValue (.binary op left)) := by
  rw [operation, h]

/-- Operators are read one operation after the other. -/
theorem operators_eq_operation {limit : Precedence}
    (hOp : BinaryOperator.ofKind? c.upcoming.kind = some op) (hLimit : limit < op.precedence) :
    operators limit left c =
      .advancing ((operation left c.advance).andThen fun e c' _ => operators limit e c') := by
  rw [operators_of_stronger hOp hLimit, operation_of_operator (c := c.advance) hOp]
  generalize expression op.precedence c.advance.advance = right
  obtain ⟨value, _, _, _, _⟩ := right
  cases value with
  | none => rfl
  | some right => rfl

theorem restored_operation (left : Expr) (c : Cursor) :
    Restored text c (operation left c).cursor := by
  unfold operation
  split
  · exact (Restored.advance c).trans (restored_expression _ _)
  · exact .refl c

theorem reads_operation (hPlain : ∀ t ∈ text, t.kind ≠ .endOfInput) (left : Expr) (c : Cursor) :
    (operation left c).Reads text fun e _ ts => SpansOperation left e (c.current :: ts) := by
  unfold operation
  split
  case h_1 op hOp =>
    have hRight : ReadsExpression text op.precedence c.advance :=
      (reads_cases hPlain).all.2.1 op.precedence c.advance
    refine .advancing (.mapValue (hRight.mono fun right c' ts hRight => ?_))
    exact ⟨hRight.firstKind_ne, .mk op (BinaryOperator.ofKind?_eq_some_iff.mp hOp) hRight⟩
  case h_2 => exact ⟨id, fun _ _ hValue => nomatch hValue⟩

end Cursor

end MonkeyLang
