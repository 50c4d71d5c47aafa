import MonkeyLang.Proofs.Written
import MonkeyLang.Proofs.Yields

/-!
# What is written is read

Tokens that write a tree are read as that tree wherever they stand, and reading takes these
tokens and no more, as long as what follows cannot continue them: no alternative may follow a
conditional and no operator an expression. Each form of phrase has its own statement, `...Read`;
the induction is over the way the phrase is written.

The exception are the links of a chain, where reading does not follow the writing: the right
operand of an operator may take up several links. They are kept as a list, `LinksRead`, and
`LinksRead.operators` is an induction on its length.

* `Written.read` : the induction.
* `ChainRead.yields` : a chain is read as its tree.
* `program_of_written` : a list of statements is parsed without diagnostics.
-/

namespace MonkeyLang

namespace Cursor

/-- The tokens are taken as this operand wherever they stand, unless an `else` follows them. -/
def OperandRead (e : Expr) (ts : List Token) : Prop :=
  ∀ (c : Cursor) (rest : List Token), c.tokens = ts ++ rest → firstKind rest ≠ .elseWord →
    ∃ c', (operand c).Yields e c' ∧ c.Takes ts c'

/-- The links of a chain, each with an operand that is read from its tokens. -/
inductive LinksRead : List Chain.Link → List Token → Prop
  | nil : LinksRead [] []
  | cons {t e links ts us} (op : BinaryOperator) (h : t.kind = op.kind)
      (operand : OperandRead e ts) (rest : LinksRead links us) :
      LinksRead ((op, e) :: links) (t :: (ts ++ us))

/-- The tokens are those of an operand and of links that are read one by one. -/
def ChainRead (first : Expr) (links : List Chain.Link) (ts : List Token) : Prop :=
  ∃ us vs, ts = us ++ vs ∧ OperandRead first us ∧ LinksRead links vs

/-- The tokens are taken as a block of these statements, whatever follows them. -/
def BlockRead (ss : List Statement) (ts : List Token) : Prop :=
  ∀ (c : Cursor) (rest : List Token), c.tokens = ts ++ rest →
    ∃ c', (block c).Yields ss c' ∧ c.Takes ts c'

/-- The tokens ahead are passed as this alternative, and none is passed if there is
no alternative. -/
def AlternativeRead (other : Option (List Statement)) (ts : List Token) : Prop :=
  ∀ (c : Cursor) (rest : List Token), c.tokens.tail = ts ++ rest →
    firstKind rest ≠ .elseWord → ∃ c', (alternative c).Yields other c' ∧ c.Passes ts c'

/-- The semicolon the tokens start with, if they do. -/
def leadingSemicolon (ts : List Token) : List Token :=
  if firstKind ts = .semicolon then ts.take 1 else []

/-- A statement takes the semicolon that follows it. -/
def StatementRead (s : Statement) (ts : List Token) : Prop :=
  ∀ (c : Cursor) (rest : List Token), c.tokens = ts ++ rest → NoOperator rest →
    firstKind rest ≠ .elseWord →
    ∃ c', (statement c).Yields s c' ∧ c.Takes (ts ++ leadingSemicolon rest) c'

/-- A list of statements is read inside a block, and as a program. -/
def StatementsRead (ss : List Statement) (ts : List Token) : Prop :=
  (∀ (c : Cursor) (t : Token) (rest : List Token), c.tokens = ts ++ t :: rest →
    t.kind = .rightBrace → ∃ c', (blockRest c).Yields ss c' ∧ c.Takes (ts ++ [t]) c') ∧
  ∀ c : Cursor, c.tokens = ts → (program c).value = ss ∧ (program c).diagnostics = []

variable {c : Cursor}

/-! ## Chains -/

theorem LinksRead.firstKind_ne_elseWord {links : List Chain.Link} {ts rest : List Token}
    (h : LinksRead links ts) (hRest : firstKind rest ≠ .elseWord) :
    firstKind (ts ++ rest) ≠ .elseWord := by
  cases h with
  | nil => exact hRest
  | cons op h _ _ =>
    rw [List.cons_append, firstKind_cons, h]
    cases op <;> decide

/-- From the links `links`, written with `ts`, those up to the first that does not bind more
strongly than the limit are read: `inner`, written with `us`. -/
structure OperatorsRead (limit : Precedence) (left : Expr) (c : Cursor)
    (links : List Chain.Link) (ts : List Token) (inner outer : List Chain.Link)
    (us vs : List Token) (c' : Cursor) : Prop where
  links_eq : links = inner ++ outer
  tokens_eq : ts = us ++ vs
  unread : LinksRead outer vs
  stronger : ∀ link ∈ inner, limit < link.1.precedence
  stop : ∀ link ∈ outer.head?, link.1.precedence ≤ limit
  yields : (operators limit left c).Yields (Chain.tree left inner) c'
  passes : c.Passes us c'

/-- Where the limit stops the operators, no links are read. -/
theorem operatorsRead_of_stops {limit : Precedence} {left : Expr} {links : List Chain.Link}
    {ts : List Token} (h : LinksRead links ts) (hStops : c.Stops limit)
    (hHead : ∀ link ∈ links.head?, link.1.precedence ≤ limit) :
    OperatorsRead limit left c links ts [] links [] ts c where
  links_eq := rfl
  tokens_eq := rfl
  unread := h
  stronger _ hLink := absurd hLink List.not_mem_nil
  stop := hHead
  yields := by
    rw [operators_of_stops hStops]
    exact Attempt.yields_stay.mpr ⟨Chain.tree_nil left, rfl⟩
  passes := .refl c

/-- An operator that binds more strongly than the limit takes the links after its operand as far
as its own strength goes, and reading goes on behind them. -/
theorem operatorsRead_of_stronger {limit : Precedence} {left e : Expr} {op : BinaryOperator}
    {links inner₁ outer₁ inner₂ outer₂ : List Chain.Link}
    {ts us us₁ vs₁ us₂ vs₂ : List Token} {c₁ c₂ c₃ : Cursor}
    (hOp : BinaryOperator.ofKind? c.upcoming.kind = some op) (hLimit : limit < op.precedence)
    (hYields : (operand c.advance.advance).Yields e c₁) (hTakes : c.advance.advance.Takes ts c₁)
    (hInner : OperatorsRead op.precedence e c₁ links us inner₁ outer₁ us₁ vs₁ c₂)
    (hOuter : OperatorsRead limit (.binary op left (Chain.tree e inner₁)) c₂ outer₁ vs₁ inner₂
      outer₂ us₂ vs₂ c₃) :
    OperatorsRead limit left c ((op, e) :: links) (c.upcoming :: (ts ++ us))
      ((op, e) :: (inner₁ ++ inner₂)) outer₂ (c.upcoming :: (ts ++ us₁ ++ us₂)) vs₂ c₃ where
  links_eq := by
    rw [hInner.links_eq, hOuter.links_eq, List.cons_append, List.append_assoc]
  tokens_eq := by
    rw [hInner.tokens_eq, hOuter.tokens_eq]
    simp only [List.cons_append, List.append_assoc]
  unread := hOuter.unread
  stronger := by
    intro link hLink
    rcases List.mem_cons.mp hLink with rfl | hLink
    · exact hLimit
    rcases List.mem_append.mp hLink with hLink | hLink
    · exact Precedence.lt_of_lt_of_le hLimit (Precedence.le_of_lt (hInner.stronger link hLink))
    · exact hOuter.stronger link hLink
  stop := hOuter.stop
  yields := by
    have hStronger : ∀ link ∈ inner₁, Chain.rank op < Chain.rank link.1 := fun link hLink =>
      Chain.precedence_lt_iff.mp (hInner.stronger link hLink)
    have hHead : ∀ link ∈ inner₂.head?, Chain.rank link.1 ≤ Chain.rank op := by
      intro link hLink
      refine Chain.precedence_le_iff.mp (hInner.stop link ?_)
      rw [hOuter.links_eq, List.head?_append, hLink]
      rfl
    rw [Chain.tree_regroup left e hStronger hHead, operators_of_stronger hOp hLimit,
      Attempt.yields_advancing, Attempt.yields_advancing, expression]
    exact (hYields.andThen fun _ => hInner.yields).andThen fun _ => hOuter.yields
  passes := by
    have hEnd : c.upcoming.kind ≠ .endOfInput := by
      rw [BinaryOperator.ofKind?_eq_some_iff.mp hOp]
      cases op <;> decide
    have hPasses := hTakes.passes (current_ne_of_yields_operand hYields)
    exact ((hPasses.trans hInner.passes).trans hOuter.passes).of_advance hEnd

/-- Links are read up to the first that does not bind more strongly than the limit. -/
theorem LinksRead.operators {links : List Chain.Link} {ts rest : List Token}
    (h : LinksRead links ts) (limit : Precedence) (left : Expr)
    (hTokens : c.tokens.tail = ts ++ rest) (hRest : NoOperator rest)
    (hElse : firstKind rest ≠ .elseWord) :
    ∃ inner outer us vs c', OperatorsRead limit left c links ts inner outer us vs c' := by
  induction hLength : links.length using Nat.strongRecOn generalizing links ts limit left c with
  | ind n ih =>
    cases h with
    | nil =>
      have hOp : BinaryOperator.ofKind? c.upcoming.kind = none := by
        rw [upcoming, hTokens]
        exact hRest
      refine ⟨[], [], [], [], c, operatorsRead_of_stops .nil (stops_of_none limit hOp) ?_⟩
      intro link hLink
      cases hLink
    | @cons t e links ts us op ht hOperand hLinks =>
      obtain rfl : c.upcoming = t := upcoming_eq hTokens
      have hOp := BinaryOperator.ofKind?_eq_some_iff.mpr ht
      by_cases hLimit : limit < op.precedence
      · have hNext : c.advance.advance.tokens = ts ++ (us ++ rest) := by
          change c.tokens.tail.tail = _
          rw [hTokens, ← List.append_assoc]
          rfl
        obtain ⟨c₁, hYields₁, hTakes₁⟩ :=
          hOperand _ _ hNext (hLinks.firstKind_ne_elseWord hElse)
        have hShorter : links.length < n := by
          rw [← hLength]
          exact Nat.lt_succ_self _
        obtain ⟨inner₁, outer₁, us₁, vs₁, c₂, hInner⟩ :=
          ih _ hShorter hLinks op.precedence e (hTakes₁.tail_eq hNext) rfl
        have hOuterShorter : outer₁.length < n := by
          rw [hInner.links_eq, List.length_append] at hShorter
          omega
        have hTail : c₂.tokens.tail = vs₁ ++ rest := by
          refine hInner.passes.tail_eq ?_
          rw [hTakes₁.tail_eq hNext, hInner.tokens_eq, List.append_assoc]
        obtain ⟨inner₂, outer₂, us₂, vs₂, c₃, hOuter⟩ :=
          ih _ hOuterShorter hInner.unread limit (.binary op left (Chain.tree e inner₁)) hTail rfl
        exact ⟨_, _, _, _, c₃,
          operatorsRead_of_stronger hOp hLimit hYields₁ hTakes₁ hInner hOuter⟩
      · refine ⟨[], _, [], _, c, operatorsRead_of_stops (.cons op ht hOperand hLinks)
          (stops_of_not_lt hOp hLimit) ?_⟩
        rintro _ ⟨⟩
        exact Precedence.not_lt.mp hLimit

/-- A chain is read as its tree. -/
theorem ChainRead.yields {first : Expr} {links : List Chain.Link} {ts rest : List Token}
    (h : ChainRead first links ts) (hTokens : c.tokens = ts ++ rest) (hRest : NoOperator rest)
    (hElse : firstKind rest ≠ .elseWord) :
    ∃ c', (expression .lowest c).Yields (Chain.tree first links) c' ∧ c.Takes ts c' := by
  obtain ⟨us, vs, rfl, hFirst, hLinks⟩ := h
  rw [List.append_assoc] at hTokens
  obtain ⟨c₁, hYields₁, hTakes₁⟩ := hFirst c _ hTokens (hLinks.firstKind_ne_elseWord hElse)
  obtain ⟨inner, outer, ws, xs, c₂, rfl, rfl, hOuter, -, hHead, hYields₂, hPasses₂⟩ :=
    hLinks.operators .lowest first (hTakes₁.tail_eq hTokens) hRest hElse
  obtain rfl : outer = [] := by
    cases outer with
    | nil => rfl
    | cons link outer =>
      exact absurd link.1.lowest_lt_precedence (Precedence.not_lt.mpr (hHead link rfl))
  cases hOuter
  rw [List.append_nil, List.append_nil, expression]
  exact ⟨c₂, hYields₁.andThen fun _ => hYields₂, hTakes₁.trans hPasses₂⟩

/-- Behind an operator in front of it an operand is read alone. -/
theorem yields_unary_of_operand {e : Expr} {c' : Cursor} (h : (operand c).Yields e c') :
    (expression .unary c).Yields e c' := by
  rw [expression]
  refine h.andThen fun _ => ?_
  rw [operators_of_stops fun op _ => Precedence.not_lt.mpr op.precedence_le_unary]
  exact Attempt.yields_stay.mpr ⟨rfl, rfl⟩

/-! ## Operands -/

theorem operandRead_of_stay {e : Expr} {t : Token}
    (h : ∀ c : Cursor, c.current = t → operand c = .stay (some e)) : OperandRead e [t] := by
  intro c rest hTokens _
  have hCurrent : c.current = t := current_eq hTokens
  rw [h c hCurrent]
  exact ⟨c, Attempt.yields_stay.mpr ⟨rfl, rfl⟩, [], by rw [hCurrent], .refl c⟩

theorem OperandRead.unary {e : Expr} {t : Token} {ts : List Token} (h : OperandRead e ts)
    {op : UnaryOperator} (ht : t.kind = op.kind) : OperandRead (.unary op e) (t :: ts) := by
  intro c rest hTokens hElse
  have hCurrent : c.current = t := current_eq hTokens
  have hNext : c.advance.tokens = ts ++ rest := congrArg List.tail hTokens
  obtain ⟨c', hYields, hTakes⟩ := h c.advance rest hNext hElse
  have hOp : UnaryOperator.ofKind? c.current.kind = some op := by
    rw [hCurrent]
    exact UnaryOperator.ofKind?_eq_some_iff.mpr ht
  rw [operand_of_unary op hOp]
  refine ⟨c', Attempt.yields_advancing.mpr (Attempt.yields_mapValue.mpr ?_), ts, by rw [hCurrent],
    hTakes.passes (current_ne_of_yields_operand hYields)⟩
  exact ⟨e, yields_unary_of_operand hYields, rfl⟩

/-- An expression in parentheses, from the opening one on. -/
theorem ChainRead.parenthesized {first : Expr} {links : List Chain.Link} {ts rest : List Token}
    {r : Token} (h : ChainRead first links ts) (hTokens : c.tokens = ts ++ r :: rest)
    (hRight : r.kind = .rightParen) :
    ∃ c', (expression .lowest c).Yields (Chain.tree first links) c' ∧ c.Takes ts c' ∧
      c'.upcoming = r ∧ c'.upcoming.kind = .rightParen ∧ c'.advance.tokens = r :: rest := by
  have hNoOperator : NoOperator (r :: rest) := by
    rw [NoOperator, firstKind_cons, hRight]
    rfl
  obtain ⟨c', hYields, hTakes⟩ := h.yields hTokens hNoOperator
    (by rw [firstKind_cons, hRight]; decide)
  have hTail := hTakes.tail_eq hTokens
  have hUpcoming := upcoming_eq hTail
  exact ⟨c', hYields, hTakes, hUpcoming, by rw [hUpcoming, hRight], hTail⟩

theorem current_ne_of_yields_expression {limit : Precedence} {e : Expr} {c' : Cursor}
    (h : (expression limit c).Yields e c') : c.current.kind ≠ .endOfInput := by
  rw [expression, Attempt.yields_andThen] at h
  obtain ⟨_, _, _, hOperand, -⟩ := h
  exact current_ne_of_yields_operand hOperand

/-- A chain in parentheses is read as an operand. -/
theorem ChainRead.group {first : Expr} {links : List Chain.Link} {ts : List Token} {l r : Token}
    (h : ChainRead first links ts) (hLeft : l.kind = .leftParen) (hRight : r.kind = .rightParen) :
    OperandRead (Chain.tree first links) (l :: (ts ++ [r])) := by
  intro c rest hTokens _
  have hCurrent : c.current = l := current_eq hTokens
  have hNext : c.advance.tokens = ts ++ r :: rest := by
    change c.tokens.tail = _
    rw [hTokens]
    simp
  obtain ⟨c₁, hYields, hTakes, hUpcoming, hKind, -⟩ := h.parenthesized hNext hRight
  have hPasses := (hTakes.passes (current_ne_of_yields_expression hYields)).trans
    (.advance (by rw [hKind]; decide))
  rw [hUpcoming] at hPasses
  rw [operand_of_leftParen (by rw [hCurrent, hLeft])]
  refine ⟨c₁.advance, Attempt.yields_advancing.mpr (hYields.andThen fun _ => ?_), _,
    by rw [hCurrent], hPasses⟩
  exact Attempt.yields_mapValue.mpr ⟨(), Attempt.yields_expect_of_kind hKind, rfl⟩

/-- A conditional is read part by part; its alternative decides where it ends. -/
theorem operandRead_conditional {first : Expr} {links : List Chain.Link} {ss : List Statement}
    {other : Option (List Statement)} {i l r : Token} {ts us vs : List Token}
    (hIf : i.kind = .ifWord) (hLeft : l.kind = .leftParen) (hRight : r.kind = .rightParen)
    (hTest : ChainRead first links ts) (hBlock : BlockRead ss us)
    (hBrace : firstKind us = .leftBrace) (hOther : AlternativeRead other vs) :
    OperandRead (.conditional (Chain.tree first links) ss other)
      (i :: l :: (ts ++ r :: (us ++ vs))) := by
  intro c rest hTokens hElse
  have hCurrent : c.current = i := current_eq hTokens
  have hUpcoming : c.upcoming = l := upcoming_eq (congrArg List.tail hTokens)
  have hParen : c.upcoming.kind = .leftParen := by rw [hUpcoming, hLeft]
  have hNext : c.advance.advance.tokens = ts ++ r :: (us ++ (vs ++ rest)) := by
    change c.tokens.tail.tail = _
    rw [hTokens]
    simp
  obtain ⟨c₁, hYieldsTest, hTakesTest, hUpcoming₁, hKind₁, hTokens₁⟩ :=
    hTest.parenthesized hNext hRight
  have hTokens₂ : c₁.advance.advance.tokens = us ++ (vs ++ rest) := by
    change c₁.advance.tokens.tail = _
    rw [hTokens₁]
    rfl
  have hBrace₂ : c₁.advance.upcoming.kind = .leftBrace := by
    change firstKind c₁.advance.advance.tokens = _
    rw [hTokens₂]
    cases us with
    | nil => cases hBrace
    | cons u us => exact hBrace
  obtain ⟨c₂, hYieldsBlock, hTakesBlock⟩ := hBlock _ _ hTokens₂
  obtain ⟨c₃, hYieldsOther, hPassesOther⟩ := hOther c₂ rest (hTakesBlock.tail_eq hTokens₂) hElse
  have hPasses : c.Passes (l :: (ts ++ r :: (us ++ vs))) c₃ := by
    rw [← hUpcoming, ← hUpcoming₁]
    refine .of_advance (by rw [hParen]; decide) ?_
    refine (hTakesTest.passes (current_ne_of_yields_expression hYieldsTest)).trans ?_
    refine .of_advance (by rw [hKind₁]; decide) ?_
    exact (hTakesBlock.passes (by rw [hBrace₂]; decide)).trans hPassesOther
  rw [operand_of_ifWord (by rw [hCurrent, hIf])]
  refine ⟨c₃, ?_, _, by rw [hCurrent], hPasses⟩
  refine (Attempt.yields_expect_of_kind hParen).andThen fun _ => ?_
  rw [Attempt.yields_advancing]
  refine hYieldsTest.andThen fun _ => ?_
  refine (Attempt.yields_expect_of_kind hKind₁).andThen fun _ => ?_
  refine (Attempt.yields_expect_of_kind hBrace₂).andThen fun _ => ?_
  refine hYieldsBlock.andThen fun _ => ?_
  exact Attempt.yields_mapValue.mpr ⟨other, hYieldsOther, rfl⟩

/-! ## Blocks -/

theorem alternativeRead_none : AlternativeRead none [] := by
  intro c rest hTokens hElse
  have hUpcoming : c.upcoming.kind ≠ .elseWord := by
    change firstKind c.tokens.tail ≠ _
    rw [hTokens]
    exact hElse
  rw [alternative, if_neg hUpcoming]
  exact ⟨c, Attempt.yields_stay.mpr ⟨rfl, rfl⟩, .refl c⟩

/-- A block behind an `else` is read as the alternative. -/
theorem BlockRead.alternative {ss : List Statement} {e : Token} {ts : List Token}
    (h : BlockRead ss ts) (hElse : e.kind = .elseWord) (hBrace : firstKind ts = .leftBrace) :
    AlternativeRead (some ss) (e :: ts) := by
  intro c rest hTokens _
  have hUpcoming : c.upcoming = e := upcoming_eq hTokens
  have hKind : c.upcoming.kind = .elseWord := by rw [hUpcoming, hElse]
  have hNext : c.advance.advance.tokens = ts ++ rest := congrArg List.tail hTokens
  have hKind' : c.advance.upcoming.kind = .leftBrace := by
    change firstKind c.advance.advance.tokens = _
    rw [hNext]
    cases ts with
    | nil => cases hBrace
    | cons t ts => exact hBrace
  obtain ⟨c', hYields, hTakes⟩ := h _ rest hNext
  have hPasses := (hTakes.passes (by rw [hKind']; decide)).of_advance (by rw [hKind]; decide)
  rw [hUpcoming] at hPasses
  rw [Cursor.alternative, if_pos hKind]
  refine ⟨c', Attempt.yields_advancing.mpr ?_, hPasses⟩
  refine (Attempt.yields_expect_of_kind hKind').andThen fun _ => ?_
  exact Attempt.yields_mapValue.mpr ⟨ss, hYields, rfl⟩

/-- Statements between braces are read as a block. -/
theorem StatementsRead.block {ss : List Statement} {l r : Token} {ts : List Token}
    (h : StatementsRead ss ts) (hRight : r.kind = .rightBrace) :
    BlockRead ss (l :: (ts ++ [r])) := by
  intro c rest hTokens
  have hCurrent : c.current = l := current_eq hTokens
  have hNext : c.enterBlock.tokens = ts ++ r :: rest := by
    change c.tokens.tail = _
    rw [hTokens]
    simp
  obtain ⟨d, hYields, hTakes⟩ := h.1 c.enterBlock r rest hNext hRight
  obtain ⟨us, hSplit, hPasses⟩ := hTakes
  have hPasses' : c.advance.Passes us d.leaveBlock :=
    ⟨hPasses.tokens, hPasses.passed, hPasses.position⟩
  have hEnd : c.upcoming.kind ≠ .endOfInput := current_ne_of_yields_blockRest hYields
  refine ⟨d.leaveBlock, ?_, ts ++ [r], by rw [hCurrent], ?_⟩
  · rw [Cursor.block]
    exact Attempt.yields_inBlock.mpr ⟨d, hYields, rfl⟩
  · rw [hSplit]
    exact hPasses'.of_advance hEnd

/-! ## Statements -/

/-- A statement ends behind the semicolon that follows its expression. -/
theorem takes_endStatement {s : Statement} {c₁ : Cursor} {ts rest : List Token}
    (hTakes : c.Takes ts c₁) (hTail : c₁.tokens.tail = rest) :
    ∃ c', (c₁.endStatement s).Yields s c' ∧ c.Takes (ts ++ leadingSemicolon rest) c' := by
  subst hTail
  by_cases hSemicolon : c₁.upcoming.kind = .semicolon
  · refine ⟨c₁.advance, Attempt.yields_endStatement.mpr ⟨rfl, (if_pos hSemicolon).symm⟩, ?_⟩
    have hEnd : c₁.upcoming.kind ≠ .endOfInput := by rw [hSemicolon]; decide
    have hFirst : firstKind c₁.tokens.tail = .semicolon := hSemicolon
    have hLeading : leadingSemicolon c₁.tokens.tail = [c₁.upcoming] := by
      rw [leadingSemicolon, if_pos hFirst, (Passes.advance hEnd).passed]
      rfl
    rw [hLeading]
    exact hTakes.trans (.advance hEnd)
  · refine ⟨c₁, Attempt.yields_endStatement.mpr ⟨rfl, (if_neg hSemicolon).symm⟩, ?_⟩
    have hLeading : leadingSemicolon c₁.tokens.tail = [] := if_neg hSemicolon
    rw [hLeading, List.append_nil]
    exact hTakes

/-- A chain behind a `let`, a name and the mark of assignment is read as a binding. -/
theorem ChainRead.binding {first : Expr} {links : List Chain.Link} {w n a : Token}
    {ts : List Token} (h : ChainRead first links ts) (hLet : w.kind = .letWord)
    (hName : n.kind = .identifier) (hAssign : a.kind = .assign) :
    StatementRead (.binding n.literal (Chain.tree first links)) (w :: n :: a :: ts) := by
  intro c rest hTokens hNoOperator hElse
  have hCurrent : c.current = w := current_eq hTokens
  have hUpcoming : c.upcoming = n := upcoming_eq (congrArg List.tail hTokens)
  have hUpcoming' : c.advance.upcoming = a :=
    upcoming_eq (congrArg (fun ts => ts.tail.tail) hTokens)
  have hKind : c.upcoming.kind = .identifier := by rw [hUpcoming, hName]
  have hKind' : c.advance.upcoming.kind = .assign := by rw [hUpcoming', hAssign]
  have hNext : c.advance.advance.advance.tokens = ts ++ rest :=
    congrArg (fun ts => ts.tail.tail.tail) hTokens
  obtain ⟨c₁, hYields, hTakes⟩ := h.yields hNext hNoOperator hElse
  have hPasses := ((hTakes.passes (current_ne_of_yields_expression hYields)).of_advance
    (by rw [hKind']; decide)).of_advance (by rw [hKind]; decide)
  rw [hUpcoming, hUpcoming'] at hPasses
  obtain ⟨c', hEnd, hTakes'⟩ := takes_endStatement
    (s := .binding c.advance.current.literal (Chain.tree first links))
    ⟨_, rfl, hPasses⟩ (hTakes.tail_eq hNext)
  rw [hCurrent] at hTakes'
  rw [← hUpcoming, statement_of_letWord (by rw [hCurrent, hLet])]
  refine ⟨c', (Attempt.yields_expect_of_kind hKind).andThen fun _ => ?_, ?_⟩
  · refine (Attempt.yields_expect_of_kind hKind').andThen fun _ => ?_
    exact Attempt.yields_advancing.mpr (hYields.andThen fun _ => hEnd)
  · rw [hUpcoming]
    exact hTakes'

theorem ChainRead.returning {first : Expr} {links : List Chain.Link} {w : Token}
    {ts : List Token} (h : ChainRead first links ts) (hReturn : w.kind = .returnWord) :
    StatementRead (.returning (Chain.tree first links)) (w :: ts) := by
  intro c rest hTokens hNoOperator hElse
  have hCurrent : c.current = w := current_eq hTokens
  have hNext : c.advance.tokens = ts ++ rest := congrArg List.tail hTokens
  obtain ⟨c₁, hYields, hTakes⟩ := h.yields hNext hNoOperator hElse
  have hPasses := hTakes.passes (current_ne_of_yields_expression hYields)
  obtain ⟨c', hEnd, hTakes'⟩ := takes_endStatement (s := .returning (Chain.tree first links))
    ⟨_, rfl, hPasses⟩ (hTakes.tail_eq hNext)
  rw [hCurrent] at hTakes'
  rw [statement_of_returnWord (by rw [hCurrent, hReturn])]
  exact ⟨c', Attempt.yields_advancing.mpr (hYields.andThen fun _ => hEnd), hTakes'⟩

/-- A chain by itself is read as a statement, which remembers its first literal. -/
theorem ChainRead.expressionStatement {first : Expr} {links : List Chain.Link} {t : Token}
    {ts : List Token} (h : ChainRead first links (t :: ts)) (hStarts : t.kind.startsOperand) :
    StatementRead (.expression t.literal (Chain.tree first links)) (t :: ts) := by
  intro c rest hTokens hNoOperator hElse
  have hCurrent : c.current = t := current_eq hTokens
  obtain ⟨c₁, hYields, hTakes⟩ := h.yields hTokens hNoOperator hElse
  obtain ⟨c', hEnd, hTakes'⟩ := takes_endStatement
    (s := .expression c.current.literal (Chain.tree first links)) hTakes (hTakes.tail_eq hTokens)
  have hLet : c.current.kind ≠ .letWord := by
    intro hKind
    rw [← hCurrent, hKind] at hStarts
    cases hStarts
  have hReturn : c.current.kind ≠ .returnWord := by
    intro hKind
    rw [← hCurrent, hKind] at hStarts
    cases hStarts
  rw [← hCurrent, statement_of_expression hLet hReturn]
  refine ⟨c', hYields.andThen fun _ => hEnd, ?_⟩
  rw [hCurrent]
  exact hTakes'

theorem statementsRead_nil : StatementsRead [] [] := by
  constructor
  · intro c t rest hTokens hBrace
    have hCurrent : c.current = t := current_eq hTokens
    rw [blockRest, if_pos (by rw [hCurrent, hBrace])]
    exact ⟨c.closeBlock, ⟨rfl, rfl, rfl⟩, [], by rw [hCurrent]; rfl, ⟨rfl, rfl, rfl⟩⟩
  · intro c hTokens
    rw [program, dif_pos (by rw [current, hTokens]; rfl)]
    exact ⟨rfl, rfl⟩

/-- A statement in front of others. The gap is what ends it: a semicolon, or nothing where
nothing continues it. -/
theorem StatementRead.cons {s : Statement} {ss : List Statement} {ts gap us : List Token}
    (h : StatementRead s ts) (hStarts : (firstKind ts).startsStatement)
    (hRest : StatementsRead ss us)
    (hGap : ∀ rest, rest = [] ∨ firstKind rest = .rightBrace →
      NoOperator (gap ++ (us ++ rest)) ∧ firstKind (gap ++ (us ++ rest)) ≠ .elseWord ∧
        leadingSemicolon (gap ++ (us ++ rest)) = gap) :
    StatementsRead (s :: ss) (ts ++ (gap ++ us)) := by
  have hCurrent : ∀ {c : Cursor} {rest : List Token}, c.tokens = ts ++ rest →
      c.current.kind ≠ .rightBrace ∧ c.current.kind ≠ .endOfInput := by
    intro c rest hTokens
    have hKind : c.current.kind = firstKind ts := by
      change firstKind c.tokens = _
      rw [hTokens, firstKind_append_of_ne_nil _ (ne_nil_of_startsStatement hStarts)]
    constructor
    all_goals
      intro hEq
      rw [← hKind, hEq] at hStarts
      cases hStarts
  constructor
  · intro c t rest hTokens hBrace
    rw [List.append_assoc, List.append_assoc] at hTokens
    obtain ⟨hNoOperator, hElse, hSemicolon⟩ := hGap (t :: rest) (Or.inr hBrace)
    obtain ⟨c₁, hYields, hTakes⟩ := h c _ hTokens hNoOperator hElse
    rw [hSemicolon] at hTakes
    have hNext : c₁.advance.tokens = us ++ t :: rest := by
      refine hTakes.tail_eq ?_
      rw [hTokens, List.append_assoc]
    obtain ⟨c₂, hYieldsRest, hTakesRest⟩ := hRest.1 c₁.advance t rest hNext hBrace
    refine ⟨c₂, ?_, ?_⟩
    · rw [blockRest, if_neg (hCurrent hTokens).1, dif_neg (hCurrent hTokens).2,
        Attempt.yields_orRecover fun hNone =>
          absurd (hYields.value.symm.trans hNone) (Option.some_ne_none s)]
      refine ⟨s, c₁, hYields.cursor ▸ (statement c).remaining_le, hYields, ?_⟩
      exact Attempt.yields_advancing.mpr (Attempt.yields_mapValue.mpr ⟨ss, hYieldsRest, rfl⟩)
    · have hPasses := hTakesRest.passes (current_ne_of_yields_blockRest hYieldsRest)
      have hAll := hTakes.trans hPasses
      simpa only [List.append_assoc] using hAll
  · intro c hTokens
    obtain ⟨hNoOperator, hElse, hSemicolon⟩ := hGap [] (Or.inl rfl)
    rw [List.append_nil] at hNoOperator hElse hSemicolon
    obtain ⟨c₁, hYields, hTakes⟩ := h c _ hTokens hNoOperator hElse
    rw [hSemicolon] at hTakes
    have hNext : c₁.advance.tokens = us := by
      refine hTakes.tail_eq ?_
      rw [hTokens, List.append_assoc]
    obtain ⟨hValue, hDiagnostics⟩ := hRest.2 c₁.advance hNext
    obtain ⟨hStatement, hNone, rfl⟩ := hYields
    rw [program_of_some (hCurrent hTokens).2 hStatement]
    refine ⟨congrArg (s :: ·) hValue, ?_⟩
    rw [Step.diagnostics_bind, hNone, List.nil_append]
    exact hDiagnostics

/-! ## The induction -/

end Cursor

/-- That a phrase is read, for each form of phrase. -/
def Phrase.Read : Phrase → List Token → Prop
  | .operand e, ts => Cursor.OperandRead e ts
  | .links rest, ts => Cursor.LinksRead rest ts
  | .chain first rest, ts => Cursor.ChainRead first rest ts
  | .block ss, ts => Cursor.BlockRead ss ts ∧ firstKind ts = .leftBrace
  | .alternative other, ts => Cursor.AlternativeRead other ts
  | .statement s, ts => Cursor.StatementRead s ts
  | .statements ss, ts => Cursor.StatementsRead ss ts

/-- Whatever is written is read, by induction over how it is written. -/
theorem Written.read {p : Phrase} {ts : List Token} (h : Written p ts) : p.Read ts := by
  induction h with
  | identifier h =>
    refine Cursor.operandRead_of_stay fun c hCurrent => ?_
    rw [Cursor.operand_of_identifier (by rw [hCurrent, h]), hCurrent]
  | integer h hValue =>
    refine Cursor.operandRead_of_stay fun c hCurrent => ?_
    exact Cursor.operand_of_integer (by rw [hCurrent, h]) (by rw [hCurrent, hValue])
  | trueWord h =>
    refine Cursor.operandRead_of_stay fun c hCurrent => ?_
    exact Cursor.operand_of_trueWord (by rw [hCurrent, h])
  | falseWord h =>
    refine Cursor.operandRead_of_stay fun c hCurrent => ?_
    exact Cursor.operand_of_falseWord (by rw [hCurrent, h])
  | unary op h _ ih => exact ih.unary h
  | group hLeft hRight _ ih => exact ih.group hLeft hRight
  | conditional hIf hLeft hRight _ _ _ ihTest ihBlock ihOther =>
    exact Cursor.operandRead_conditional hIf hLeft hRight ihTest ihBlock.1 ihBlock.2 ihOther
  | noLink => exact .nil
  | link op h _ _ ihOperand ihRest => exact .cons op h ihOperand ihRest
  | chain _ _ ihOperand ihRest => exact ⟨_, _, rfl, ihOperand, ihRest⟩
  | block hLeft hRight _ ih => exact ⟨ih.block hRight, hLeft⟩
  | noAlternative => exact Cursor.alternativeRead_none
  | alternative h _ ih => exact ih.1.alternative h ih.2
  | binding hLet hName hAssign _ ih => exact ih.binding hLet hName hAssign
  | returning hReturn _ ih => exact ih.returning hReturn
  | expression value ih => exact ih.expressionStatement value.starts
  | noStatement => exact Cursor.statementsRead_nil
  | @closed t s ss ts us h head tail ihHead ihTail =>
    have hGap : ∀ rest, rest = [] ∨ firstKind rest = .rightBrace →
        NoOperator ([t] ++ (us ++ rest)) ∧ firstKind ([t] ++ (us ++ rest)) ≠ .elseWord ∧
          Cursor.leadingSemicolon ([t] ++ (us ++ rest)) = [t] := by
      intro rest _
      rw [List.singleton_append, NoOperator, Cursor.leadingSemicolon, firstKind_cons, h]
      exact ⟨rfl, by decide, rfl⟩
    exact ihHead.cons head.starts ihTail hGap
  | @juxtaposed s ss ts us h head tail ihHead ihTail =>
    have hGap : ∀ rest, rest = [] ∨ firstKind rest = .rightBrace →
        NoOperator ([] ++ (us ++ rest)) ∧ firstKind ([] ++ (us ++ rest)) ≠ .elseWord ∧
          Cursor.leadingSemicolon ([] ++ (us ++ rest)) = [] := by
      intro rest hRest
      rw [List.nil_append]
      by_cases hNil : us = []
      · subst hNil
        rw [List.nil_append, NoOperator, Cursor.leadingSemicolon]
        rcases hRest with rfl | hBrace
        · exact ⟨rfl, by decide, rfl⟩
        · rw [hBrace]
          exact ⟨rfl, by decide, rfl⟩
      · rw [NoOperator, Cursor.leadingSemicolon, firstKind_append_of_ne_nil rest hNil]
        have hStarts := tail.starts_statements hNil
        refine ⟨h, ?_, if_neg ?_⟩
        all_goals
          intro hEq
          rw [hEq] at hStarts
          cases hStarts
    exact ihHead.cons head.starts ihTail hGap

/-- A list of tokens that writes statements is parsed as these without diagnostics. -/
theorem program_of_written {ss : List Statement} {c : Cursor}
    (h : Written (.statements ss) c.tokens) :
    (Cursor.program c).value = ss ∧ (Cursor.program c).diagnostics = [] :=
  h.read.2 c rfl

end MonkeyLang
