import MonkeyLang.Tree.Parse

/-!
# Induction over reading

The functions that read call one another, each from a place further on or as a smaller part of
what the caller reads. The induction that comes with them has a case for each of their branches;
`Cursor.ReadingCases` has one for each way in which something is read, and says where the parts
begin.

* `Cursor.ReadingCases.all` is the induction.
* `Token.IsOperand` : the tokens that are an operand by themselves, which form one case.
-/

namespace MonkeyLang

/-- The token alone is the operand with the given tree. -/
inductive Token.IsOperand (t : Token) : Expr → Prop
  | identifier (h : t.kind = .identifier) : IsOperand t (.identifier t.literal)
  | integer {value : Integer} (h : t.kind = .integer)
      (hValue : Integer.ofText? t.literal = some value) : IsOperand t (.integer value)
  | trueWord (h : t.kind = .trueWord) : IsOperand t (.boolean true)
  | falseWord (h : t.kind = .falseWord) : IsOperand t (.boolean false)

theorem Token.IsOperand.kind_ne_endOfInput {t : Token} {e : Expr} (h : t.IsOperand e) :
    t.kind ≠ .endOfInput := by
  cases h with
  | identifier hKind | integer hKind _ | trueWord hKind | falseWord hKind =>
    rw [hKind]
    decide

namespace Cursor

variable {c : Cursor}

theorem operand_of_isOperand {e : Expr} (h : c.current.IsOperand e) :
    operand c = .stay (some e) := by
  cases h with
  | identifier hKind => exact operand_of_identifier hKind
  | integer hKind hValue => exact operand_of_integer hKind hValue
  | trueWord hKind => exact operand_of_trueWord hKind
  | falseWord hKind => exact operand_of_falseWord hKind

/-- What has to be shown to prove a statement about each function that reads. -/
structure ReadingCases (S : Cursor → Prop) (E : Precedence → Cursor → Prop)
    (O : Precedence → Expr → Cursor → Prop) (P A B R : Cursor → Prop) : Prop where
  binding : ∀ {c : Cursor}, c.current.kind = .letWord →
    (∀ c' : Cursor, c'.remaining ≤ c.remaining → E .lowest c'.advance) → S c
  returning : ∀ {c : Cursor}, c.current.kind = .returnWord → E .lowest c.advance → S c
  expressionStatement : ∀ {c : Cursor}, c.current.kind ≠ .letWord →
    c.current.kind ≠ .returnWord → E .lowest c → S c
  expression : ∀ {limit : Precedence} {c : Cursor}, P c →
    (∀ (left : Expr) (c' : Cursor), c'.remaining ≤ c.remaining → O limit left c') → E limit c
  stronger : ∀ {limit : Precedence} {left : Expr} {c : Cursor} {op : BinaryOperator},
    BinaryOperator.ofKind? c.upcoming.kind = some op → limit < op.precedence →
    E op.precedence c.advance.advance →
    (∀ (right : Expr) (c' : Cursor), c'.remaining ≤ c.advance.advance.remaining →
      O limit (.binary op left right) c') → O limit left c
  stops : ∀ {limit : Precedence} {left : Expr} {c : Cursor}, c.Stops limit → O limit left c
  single : ∀ {c : Cursor} {e : Expr}, c.current.IsOperand e → P c
  badInteger : ∀ {c : Cursor}, c.current.kind = .integer →
    Integer.ofText? c.current.literal = none → P c
  unary : ∀ {c : Cursor} (op : UnaryOperator),
    UnaryOperator.ofKind? c.current.kind = some op → E .unary c.advance → P c
  group : ∀ {c : Cursor}, c.current.kind = .leftParen → E .lowest c.advance → P c
  conditional : ∀ {c : Cursor}, c.current.kind = .ifWord →
    (∀ c' : Cursor, c'.remaining ≤ c.remaining → E .lowest c'.advance) →
    (∀ c' : Cursor, c'.remaining ≤ c.remaining →
      ∀ c'' : Cursor, c''.remaining ≤ c'.advance.remaining → B c'') →
    (∀ c' : Cursor, c'.remaining ≤ c.remaining →
      ∀ c'' : Cursor, c''.remaining ≤ c'.advance.remaining → A c'') → P c
  noOperand : ∀ {c : Cursor}, c.current.kind.startsOperand = false → P c
  alternative : ∀ {c : Cursor}, c.upcoming.kind = .elseWord →
    (∀ c' : Cursor, c'.remaining ≤ c.advance.remaining → B c') → A c
  noAlternative : ∀ {c : Cursor}, c.upcoming.kind ≠ .elseWord → A c
  block : ∀ {c : Cursor}, R c.enterBlock → B c
  closed : ∀ {c : Cursor}, c.current.kind = .rightBrace → R c
  unclosed : ∀ {c : Cursor}, c.current.kind = .endOfInput → R c
  more : ∀ {c : Cursor}, c.current.kind ≠ .rightBrace → c.current.kind ≠ .endOfInput → S c →
    (∀ c' : Cursor, c'.remaining ≤ c.remaining → R c'.advance) → R c

/-- The induction over reading: the cases suffice for all of the functions. -/
theorem ReadingCases.all {S : Cursor → Prop} {E : Precedence → Cursor → Prop}
    {O : Precedence → Expr → Cursor → Prop} {P A B R : Cursor → Prop}
    (h : ReadingCases S E O P A B R) :
    (∀ c, S c) ∧ (∀ limit c, E limit c) ∧ (∀ limit left c, O limit left c) ∧ (∀ c, P c) ∧
      (∀ c, A c) ∧ (∀ c, B c) ∧ ∀ c, R c := by
  refine statement.mutual_induct S E O P A B R ?binding (fun _ => h.returning)
    (fun _ => h.expressionStatement) (fun _ _ => h.expression) (fun _ _ _ _ => h.stronger)
    ?weaker ?noOperator (fun _ hKind => h.single (.identifier hKind))
    (fun _ hKind _ hValue => h.single (.integer hKind hValue)) (fun _ => h.badInteger)
    (fun _ hKind => h.single (.trueWord hKind)) (fun _ hKind => h.single (.falseWord hKind))
    ?bang ?minus (fun _ => h.group) ?conditional ?noOperand (fun _ => h.alternative)
    (fun _ => h.noAlternative) (fun _ => h.block) (fun _ => h.closed) (fun _ _ => h.unclosed)
    (fun _ => h.more)
  case binding =>
    intro c hKind ih
    exact h.binding hKind fun c' h' => ih c' h' c' (Nat.le_refl _)
  case weaker =>
    intro limit left c op hOp hLimit
    exact h.stops (stops_of_not_lt hOp hLimit)
  case noOperator =>
    intro limit left c hOp
    exact h.stops (stops_of_none limit hOp)
  case bang =>
    intro c hKind
    exact h.unary .not (by rw [hKind]; rfl)
  case minus =>
    intro c hKind
    exact h.unary .negate (by rw [hKind]; rfl)
  case conditional =>
    intro c hKind ihTest ihBlock ihOther
    have hSame : ∀ c' : Cursor, c'.remaining ≤ c'.remaining := fun c' => Nat.le_refl _
    refine h.conditional hKind ihTest ?_ ?_
    · exact fun c₁ h₁ c' h' => ihBlock c₁ h₁ c' h' c' (hSame c') c' (hSame c')
    · exact fun c₁ h₁ c' h' => ihOther c₁ h₁ c' h' c' (hSame c') c' (hSame c') c' (hSame c')
  case noOperand =>
    intro c h₁ h₂ h₃ h₄ h₅ h₆ h₇ h₈
    exact h.noOperand (Token.Kind.startsOperand_eq_false h₁ h₂ h₃ h₄ h₅ h₆ h₇ h₈)

end Cursor

end MonkeyLang
