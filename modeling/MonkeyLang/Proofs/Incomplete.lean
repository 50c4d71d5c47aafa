import MonkeyLang.Proofs.Acceptance
import MonkeyLang.Proofs.Completion

/-!
# Incomplete programs

A program whose text breaks off is told apart from a wrong one: exactly then do all reports
mention the end of input. That such a text can be completed has been shown; here a text is
compared with one that goes on and is parsed without reports.

As long as both texts have tokens left, both are read in the same way. Where the shorter text
has ended, whatever is still read in it only reports the end of input, and no recovery from that
finds another token.

* `Attempt.Tracks` : an attempt in the shorter text follows one in the longer text, or has come
  to the end of the text. It has one rule for each way to build an attempt.
* `tracks_cases` collects the cases for the induction over reading.
* `exists_completion_iff` : the two directions together.
-/

namespace MonkeyLang

open Cursor

/-! ## At the end of a text -/

theorem Cursor.tail_eq_nil_of_remaining_le {c c' : Cursor} (h : c'.remaining ≤ c.remaining)
    (hTail : c.tokens.tail = []) : c'.tokens.tail = [] := by
  have hLength := congrArg List.length hTail
  refine List.eq_nil_of_length_eq_zero ?_
  simp only [List.length_tail, List.length_nil, remaining] at *
  omega

/-- The attempt has come to the end of the text, and reports nothing else. -/
structure Attempt.Exhausted {c : Cursor} {α : Type} (s : Attempt c α) : Prop where
  mentionsEnd : ∀ d ∈ s.diagnostics, d.MentionsEnd
  tail : s.cursor.tokens.tail = []

namespace Attempt.Exhausted

variable {c : Cursor} {α β : Type}

theorem advancing {s : Attempt c.advance α} (h : s.Exhausted) :
    Attempt.Exhausted (.advancing s : Attempt c α) :=
  ⟨h.mentionsEnd, h.tail⟩

theorem inBlock {s : Attempt c.enterBlock α} (h : s.Exhausted) :
    Attempt.Exhausted (.inBlock s : Attempt c α) :=
  ⟨h.mentionsEnd, h.tail⟩

theorem mapValue {s : Attempt c α} (f : α → β) (h : s.Exhausted) : (s.mapValue f).Exhausted :=
  ⟨h.mentionsEnd, h.tail⟩

theorem andThen {s : Attempt c α} (hs : s.Exhausted)
    {f : α → (c' : Cursor) → c'.remaining ≤ c.remaining → Attempt c' β}
    (hf : ∀ v, s.value = some v → (f v s.cursor s.remaining_le).Exhausted) :
    (s.andThen f).Exhausted := by
  cases hValue : s.value with
  | none =>
    rw [andThen_of_none hValue]
    exact ⟨hs.mentionsEnd, hs.tail⟩
  | some v =>
    have hRest := hf v hValue
    rw [andThen_of_some hValue]
    exact ⟨List.forall_mem_append.mpr ⟨hs.mentionsEnd, hRest.mentionsEnd⟩, hRest.tail⟩

/-- Recovery from an exhausted attempt finds nothing. -/
theorem orRecover {s : Attempt c α} (hs : s.Exhausted)
    {found : α → (c' : Cursor) → c'.remaining ≤ c.remaining → Attempt c' β}
    {lost : Bool → (c' : Cursor) → c'.remaining ≤ c.remaining → Attempt c' β}
    (hFound : ∀ v, s.value = some v → (found v s.cursor s.remaining_le).Exhausted)
    (hLost : ∀ atBrace c' h, c'.tokens.tail = [] → (lost atBrace c' h).Exhausted) :
    Attempt.Exhausted (s.orRecover found lost : Attempt c β) := by
  cases hValue : s.value with
  | none =>
    have hTail := tail_eq_nil_of_remaining_le s.cursor.recover.remaining_le hs.tail
    have hRest := hLost s.cursor.recover.value s.cursor.recover.cursor
      (Nat.le_trans s.cursor.recover.remaining_le s.remaining_le) hTail
    rw [orRecover_of_none hValue]
    refine ⟨?_, hRest.tail⟩
    rw [Step.diagnostics_bind, Step.diagnostics_bind, diagnostics_recover, List.nil_append]
    exact List.forall_mem_append.mpr ⟨hs.mentionsEnd, hRest.mentionsEnd⟩
  | some v =>
    have hRest := hFound v hValue
    rw [orRecover_of_some hValue]
    exact ⟨List.forall_mem_append.mpr ⟨hs.mentionsEnd, hRest.mentionsEnd⟩, hRest.tail⟩

end Attempt.Exhausted

/-! ## A text and a longer one -/

/-- The attempt `s` in a text has the tokens `ahead` to read. If it has none, it is exhausted.
If `t` reads on with more tokens behind these, and yields something, then so does `s`, up to the
same token, or it is exhausted. -/
structure Attempt.Tracks (following : List Token) {a b : Cursor} {α : Type} (s : Attempt a α)
    (ahead : List Token) (t : Attempt b α) (aheadAbove : List Token) : Prop where
  ended : ahead = [] → s.Exhausted
  onward : aheadAbove = ahead ++ following → ∀ w b', t.Yields w b' →
    s.Exhausted ∨ ∃ v a', s.Yields v a' ∧ b'.tokens.tail = a'.tokens.tail ++ following

namespace Attempt.Tracks

variable {following ahead aheadAbove : List Token} {a b : Cursor} {α β : Type}

theorem stay (v w : α) :
    Attempt.Tracks following (.stay (some v) : Attempt a α) a.tokens.tail
      (.stay (some w) : Attempt b α) b.tokens.tail where
  ended hNil := ⟨List.forall_mem_nil _, hNil⟩
  onward hAhead w b' hYields := by
    obtain ⟨-, rfl⟩ := yields_stay.mp hYields
    exact .inr ⟨v, a, yields_stay.mpr ⟨rfl, rfl⟩, hAhead⟩

theorem goto (v w : α) {a' b' : Cursor} (h : a'.remaining ≤ a.remaining)
    (h' : b'.remaining ≤ b.remaining) (hEnded : ahead = [] → a'.tokens.tail = [])
    (hOnward : aheadAbove = ahead ++ following →
      b'.tokens.tail = a'.tokens.tail ++ following) :
    Attempt.Tracks following (.goto (some v) a' h : Attempt a α) ahead
      (.goto (some w) b' h' : Attempt b α) aheadAbove where
  ended hNil := ⟨List.forall_mem_nil _, hEnded hNil⟩
  onward hAhead := by
    rintro w _ ⟨-, -, rfl⟩
    exact .inr ⟨v, a', ⟨rfl, rfl, rfl⟩, hOnward hAhead⟩

theorem advancing {s : Attempt a.advance α} {t : Attempt b.advance α}
    (h : s.Tracks following ahead t aheadAbove) :
    Attempt.Tracks following (.advancing s : Attempt a α) ahead (.advancing t : Attempt b α)
      aheadAbove where
  ended hNil := (h.ended hNil).advancing
  onward hAhead w b' hYields := by
    rcases h.onward hAhead w b' (yields_advancing.mp hYields) with hEnd | ⟨v, a', hYields', hTail⟩
    · exact .inl hEnd.advancing
    · exact .inr ⟨v, a', yields_advancing.mpr hYields', hTail⟩

theorem inBlock {s : Attempt a.enterBlock α} {t : Attempt b.enterBlock α}
    (h : s.Tracks following ahead t aheadAbove) :
    Attempt.Tracks following (.inBlock s : Attempt a α) ahead (.inBlock t : Attempt b α)
      aheadAbove where
  ended hNil := (h.ended hNil).inBlock
  onward hAhead w b' hYields := by
    obtain ⟨d, hInner, rfl⟩ := yields_inBlock.mp hYields
    rcases h.onward hAhead w d hInner with hEnd | ⟨v, a', hYields', hTail⟩
    · exact .inl hEnd.inBlock
    · exact .inr ⟨v, a'.leaveBlock, yields_inBlock.mpr ⟨a', hYields', rfl⟩, hTail⟩

theorem mapValue {s : Attempt a α} {t : Attempt b α} (f g : α → β)
    (h : s.Tracks following ahead t aheadAbove) :
    (s.mapValue f).Tracks following ahead (t.mapValue g) aheadAbove where
  ended hNil := (h.ended hNil).mapValue f
  onward hAhead w b' hYields := by
    obtain ⟨u, hInner, rfl⟩ := yields_mapValue.mp hYields
    rcases h.onward hAhead u b' hInner with hEnd | ⟨v, a', hYields', hTail⟩
    · exact .inl (hEnd.mapValue f)
    · exact .inr ⟨f v, a', yields_mapValue.mpr ⟨v, hYields', rfl⟩, hTail⟩

/-- One attempt after another, from where the first one has ended. -/
theorem andThen {s : Attempt a α} {t : Attempt b α}
    {f : α → (a' : Cursor) → a'.remaining ≤ a.remaining → Attempt a' β}
    {g : α → (b' : Cursor) → b'.remaining ≤ b.remaining → Attempt b' β}
    (hs : s.Tracks following ahead t aheadAbove)
    (hf : ∀ v w a' b' h h',
      (f v a' h).Tracks following a'.tokens.tail (g w b' h') b'.tokens.tail) :
    (s.andThen f).Tracks following ahead (t.andThen g) aheadAbove := by
  have hExhausted : s.Exhausted → (s.andThen f).Exhausted := fun hEnd =>
    hEnd.andThen fun v _ => (hf v v _ b _ (Nat.le_refl _)).ended hEnd.tail
  refine ⟨fun hNil => hExhausted (hs.ended hNil), ?_⟩
  intro hAhead w b' hYields
  obtain ⟨u, d, h, hFirst, hRest⟩ := yields_andThen.mp hYields
  rcases hs.onward hAhead u d hFirst with hEnd | ⟨v, a', hYields', hTail⟩
  · exact .inl (hExhausted hEnd)
  obtain ⟨hValue, hNone, rfl⟩ := hYields'
  rcases (hf v u _ d s.remaining_le h).onward hTail w b' hRest with
    hEnd | ⟨v', a'', hYields'', hTail'⟩
  · refine .inl ?_
    rw [andThen_of_some hValue]
    refine ⟨?_, hEnd.tail⟩
    rw [Step.diagnostics_bind, hNone]
    exact hEnd.mentionsEnd
  · exact .inr ⟨v', a'', Yields.andThen ⟨hValue, hNone, rfl⟩ fun _ => hYields'', hTail'⟩

/-- A list of statements goes on where the first one has ended, if it is well formed. -/
theorem orRecover {s : Attempt a α} {t : Attempt b α}
    {found : α → (a' : Cursor) → a'.remaining ≤ a.remaining → Attempt a' β}
    {lost : Bool → (a' : Cursor) → a'.remaining ≤ a.remaining → Attempt a' β}
    {foundAbove : α → (b' : Cursor) → b'.remaining ≤ b.remaining → Attempt b' β}
    {lostAbove : Bool → (b' : Cursor) → b'.remaining ≤ b.remaining → Attempt b' β}
    (hs : s.Tracks following ahead t aheadAbove)
    (hReported : t.value = none → t.diagnostics ≠ [])
    (hFound : ∀ v w a' b' h h',
      (found v a' h).Tracks following a'.tokens.tail (foundAbove w b' h') b'.tokens.tail)
    (hLost : ∀ atBrace a' h, a'.tokens.tail = [] → (lost atBrace a' h).Exhausted) :
    Attempt.Tracks following (s.orRecover found lost : Attempt a β) ahead
      (t.orRecover foundAbove lostAbove : Attempt b β) aheadAbove := by
  have hExhausted : s.Exhausted → Attempt.Exhausted (s.orRecover found lost : Attempt a β) :=
    fun hEnd => hEnd.orRecover
      (fun v _ => (hFound v v _ b _ (Nat.le_refl _)).ended hEnd.tail) hLost
  refine ⟨fun hNil => hExhausted (hs.ended hNil), ?_⟩
  intro hAhead w b' hYields
  obtain ⟨u, d, h, hFirst, hRest⟩ := (yields_orRecover hReported).mp hYields
  rcases hs.onward hAhead u d hFirst with hEnd | ⟨v, a', hYields', hTail⟩
  · exact .inl (hExhausted hEnd)
  obtain ⟨hValue, hNone, rfl⟩ := hYields'
  rcases (hFound v u _ d s.remaining_le h).onward hTail w b' hRest with
    hEnd | ⟨v', a'', hYields'', hTail'⟩
  · refine .inl ?_
    rw [orRecover_of_some hValue]
    refine ⟨?_, hEnd.tail⟩
    rw [Step.diagnostics_bind, hNone]
    exact hEnd.mentionsEnd
  · refine .inr ⟨v', a'', ?_, hTail'⟩
    rw [orRecover_of_some hValue]
    refine ⟨hYields''.value, ?_, hYields''.cursor⟩
    rw [Step.diagnostics_bind, hNone, hYields''.diagnostics]
    rfl

theorem of_exhausted {s : Attempt a α} {t : Attempt b α} (h : s.Exhausted) :
    s.Tracks following ahead t aheadAbove :=
  ⟨fun _ => h, fun _ _ _ _ => .inl h⟩

/-- Something else is wrong with the longer text than that it ends. -/
theorem failing {s : Attempt a α} {t : Attempt b α} (hEnded : ahead = [] → s.Exhausted)
    (h : ∀ w b', ¬ t.Yields w b') : s.Tracks following ahead t aheadAbove :=
  ⟨hEnded, fun _ w b' hYields => absurd hYields (h w b')⟩

/-- Unless the shorter text has ended, both have the same current token. -/
theorem matching {s : Attempt a α} {t : Attempt b α} (hNil : a.tokens ≠ [])
    (h : b.current = a.current → s.Tracks following a.tokens t b.tokens) :
    s.Tracks following a.tokens t b.tokens := by
  refine ⟨fun hEnded => absurd hEnded hNil, fun hAhead => (h ?_).onward hAhead⟩
  obtain ⟨token, rest, hTokens⟩ := List.exists_cons_of_ne_nil hNil
  rw [hTokens] at hAhead
  rw [current_eq hTokens]
  exact current_eq hAhead

/-- An attempt that reads its current token goes on behind it. -/
theorem behind {s : Attempt a α} {t : Attempt b α} (hEnd : a.current.kind ≠ .endOfInput)
    (h : b.current = a.current → s.Tracks following a.tokens.tail t b.tokens.tail) :
    s.Tracks following a.tokens t b.tokens := by
  have hNil := tokens_ne_nil hEnd
  refine .matching hNil fun hCurrent => ⟨fun hEnded => absurd hEnded hNil, fun hAhead => ?_⟩
  refine (h hCurrent).onward ?_
  rw [hAhead, List.tail_append_of_ne_nil hNil]

/-- Unless the shorter text has ended, both have the same next token. -/
theorem upcoming {s : Attempt a α} {t : Attempt b α} (hEnded : a.tokens.tail = [] → s.Exhausted)
    (h : b.upcoming = a.upcoming → s.Tracks following a.tokens.tail t b.tokens.tail) :
    s.Tracks following a.tokens.tail t b.tokens.tail := by
  by_cases hNil : a.tokens.tail = []
  · exact .of_exhausted (hEnded hNil)
  · refine ⟨hEnded, fun hAhead => (h ?_).onward hAhead⟩
    obtain ⟨token, rest, hTokens⟩ := List.exists_cons_of_ne_nil hNil
    rw [hTokens] at hAhead
    rw [upcoming_eq hTokens]
    exact upcoming_eq hAhead

theorem advance (v w : α) (hNext : a.upcoming.kind ≠ .endOfInput) :
    Attempt.Tracks following (.goto (some v) a.advance a.remaining_advance_le : Attempt a α)
      a.tokens.tail (.goto (some w) b.advance b.remaining_advance_le : Attempt b α)
      b.tokens.tail := by
  have hNil : a.tokens.tail ≠ [] := tokens_ne_nil (c := a.advance) hNext
  refine .goto v w _ _ (fun hEnded => absurd hEnded hNil) fun hAhead => ?_
  change b.tokens.tail.tail = a.tokens.tail.tail ++ following
  rw [hAhead, List.tail_append_of_ne_nil hNil]

theorem expect (a b : Cursor) {kind : Token.Kind} (hKind : kind ≠ .endOfInput) :
    (a.expect kind).Tracks following a.tokens.tail (b.expect kind) b.tokens.tail := by
  have hEnded : a.tokens.tail = [] → (a.expect kind).Exhausted := by
    intro hNil
    have hUpcoming := upcoming_of_tail_eq_nil hNil
    unfold Cursor.expect
    rw [if_neg (by rw [hUpcoming]; exact hKind.symm), hUpcoming]
    exact ⟨List.forall_mem_singleton.mpr rfl, hNil⟩
  refine .upcoming hEnded fun hNext => ?_
  by_cases hMatch : a.upcoming.kind = kind
  · unfold Cursor.expect
    rw [if_pos hMatch, if_pos (hNext ▸ hMatch)]
    exact .advance () () (hMatch ▸ hKind)
  · refine .failing hEnded fun w b' hYields => hMatch ?_
    rw [← hNext]
    exact (yields_expect.mp hYields).1

theorem endStatement (a b : Cursor) (v w : α) :
    (a.endStatement v).Tracks following a.tokens.tail (b.endStatement w) b.tokens.tail := by
  unfold Cursor.endStatement
  by_cases hSemicolon : a.upcoming.kind = .semicolon
  · have hEnd : a.advance.current.kind ≠ .endOfInput := by
      rw [current_advance, hSemicolon]
      decide
    refine .upcoming (fun hNil => absurd hNil (tokens_ne_nil hEnd)) fun hNext => ?_
    rw [if_pos hSemicolon, if_pos (hNext ▸ hSemicolon)]
    exact .advance v w hEnd
  · rw [if_neg hSemicolon]
    refine .upcoming (fun hNil => ⟨List.forall_mem_nil _, hNil⟩) fun hNext => ?_
    rw [if_neg (hNext ▸ hSemicolon)]
    exact .stay v w

end Attempt.Tracks

/-! ## Reading -/

namespace Cursor

variable (following : List Token)

/-- When tokens follow the text, a statement that starts in it ends on the same token, or the text
alone is exhausted in it. -/
def TracksStatement (a : Cursor) : Prop :=
  a.current.kind ≠ .endOfInput → ∀ b, (statement a).Tracks following a.tokens (statement b) b.tokens

/-- The same of an expression, whatever limit its operators have. -/
def TracksExpression (limit : Precedence) (a : Cursor) : Prop :=
  ∀ b, (expression limit a).Tracks following a.tokens (expression limit b) b.tokens

/-- The trees on the left make no difference. -/
def TracksOperators (limit : Precedence) (_ : Expr) (a : Cursor) : Prop :=
  ∀ b left left', (operators limit left a).Tracks following a.tokens.tail
    (operators limit left' b) b.tokens.tail

/-- The same of an operand, which may hold blocks. -/
def TracksOperand (a : Cursor) : Prop :=
  ∀ b, (operand a).Tracks following a.tokens (operand b) b.tokens

/-- An alternative is looked for behind the current token, so only what is ahead is compared. -/
def TracksAlternative (a : Cursor) : Prop :=
  ∀ b, (alternative a).Tracks following a.tokens.tail (alternative b) b.tokens.tail

/-- A block is compared from behind its opening brace on. -/
def TracksBlock (a : Cursor) : Prop :=
  ∀ b, (block a).Tracks following a.tokens.tail (block b) b.tokens.tail

/-- The rest of a block starts at the cursor. -/
def TracksBlockRest (a : Cursor) : Prop :=
  ∀ b, (blockRest a).Tracks following a.tokens (blockRest b) b.tokens

variable {following} {a : Cursor}

/-! ## Operands -/

theorem tracksOperand_of_isOperand {e : Expr} (h : a.current.IsOperand e) :
    TracksOperand following a := by
  intro b
  refine .behind h.kind_ne_endOfInput fun hCurrent => ?_
  rw [operand_of_isOperand h, operand_of_isOperand (hCurrent ▸ h)]
  exact .stay e e

theorem tracksOperand_of_bad_integer (hKind : a.current.kind = .integer)
    (hValue : Integer.ofText? a.current.literal = none) : TracksOperand following a := by
  intro b
  have hNil : a.tokens ≠ [] := tokens_ne_nil (by rw [hKind]; decide)
  refine .matching hNil fun hCurrent => .failing (fun hEnded => absurd hEnded hNil) ?_
  intro w b'
  rw [operand_of_bad_integer (hCurrent ▸ hKind) (hCurrent ▸ hValue)]
  exact Attempt.not_yields_fail

theorem tracksOperand_of_unary (op : UnaryOperator)
    (hOp : UnaryOperator.ofKind? a.current.kind = some op)
    (ih : TracksExpression following .unary a.advance) : TracksOperand following a := by
  intro b
  have hKind := UnaryOperator.ofKind?_eq_some_iff.mp hOp
  refine .behind (hKind ▸ op.kind_ne_endOfInput) fun hCurrent => ?_
  rw [operand_of_unary op hOp, operand_of_unary op (hCurrent ▸ hOp)]
  exact .advancing (.mapValue _ _ (ih b.advance))

theorem tracksOperand_of_leftParen (hKind : a.current.kind = .leftParen)
    (ih : TracksExpression following .lowest a.advance) : TracksOperand following a := by
  intro b
  refine .behind (by rw [hKind]; decide) fun hCurrent => ?_
  rw [operand_of_leftParen hKind, operand_of_leftParen (hCurrent ▸ hKind)]
  refine .advancing (.andThen (ih b.advance) fun _ _ a' b' _ _ => ?_)
  exact .mapValue _ _ (.expect a' b' (by decide))

theorem tracksOperand_of_ifWord (hKind : a.current.kind = .ifWord)
    (ihTest : ∀ a' : Cursor, a'.remaining ≤ a.remaining →
      TracksExpression following .lowest a'.advance)
    (ihBlock : ∀ a' : Cursor, a'.remaining ≤ a.remaining →
      ∀ a'' : Cursor, a''.remaining ≤ a'.advance.remaining → TracksBlock following a'')
    (ihOther : ∀ a' : Cursor, a'.remaining ≤ a.remaining →
      ∀ a'' : Cursor, a''.remaining ≤ a'.advance.remaining → TracksAlternative following a'') :
    TracksOperand following a := by
  intro b
  refine .behind (by rw [hKind]; decide) fun hCurrent => ?_
  rw [operand_of_ifWord hKind, operand_of_ifWord (hCurrent ▸ hKind)]
  refine .andThen (.expect a b (by decide)) fun _ _ a₁ b₁ h₁ _ => .advancing ?_
  refine .andThen (ihTest a₁ h₁ b₁.advance) fun _ _ a₂ b₂ h₂ _ => ?_
  refine .andThen (.expect a₂ b₂ (by decide)) fun _ _ a₃ b₃ h₃ _ => ?_
  refine .andThen (.expect a₃ b₃ (by decide)) fun _ _ a₄ b₄ h₄ _ => ?_
  have hLess := Nat.le_trans h₄ (Nat.le_trans h₃ h₂)
  refine .andThen (ihBlock a₁ h₁ a₄ hLess b₄) fun _ _ a₅ b₅ h₅ _ => ?_
  exact .mapValue _ _ (ihOther a₁ h₁ a₅ (Nat.le_trans h₅ hLess) b₅)

theorem tracksOperand_of_not_startsOperand (hStarts : a.current.kind.startsOperand = false) :
    TracksOperand following a := by
  intro b
  by_cases hNil : a.tokens = []
  · refine .of_exhausted ?_
    rw [operand_of_not_startsOperand hStarts, current, hNil]
    exact ⟨List.forall_mem_singleton.mpr rfl, by rw [Step.cursor_fail, hNil]; rfl⟩
  · refine .matching hNil fun hCurrent => .failing (fun hEnded => absurd hEnded hNil) ?_
    intro w b'
    rw [operand_of_not_startsOperand (hCurrent ▸ hStarts)]
    exact Attempt.not_yields_fail

/-! ## Expressions -/

theorem tracksExpression_of_operand {limit : Precedence} (ihOperand : TracksOperand following a)
    (ihOperators : ∀ (left : Expr) (a' : Cursor), a'.remaining ≤ a.remaining →
      TracksOperators following limit left a') : TracksExpression following limit a := by
  intro b
  rw [expression, expression]
  exact .andThen (ihOperand b) fun left left' a' b' h _ =>
    ihOperators left a' h b' left left'

theorem tracksOperators_of_stronger {limit : Precedence} {left : Expr} {op : BinaryOperator}
    (hOp : BinaryOperator.ofKind? a.upcoming.kind = some op) (hLimit : limit < op.precedence)
    (ihRight : TracksExpression following op.precedence a.advance.advance)
    (ihRest : ∀ (right : Expr) (a' : Cursor), a'.remaining ≤ a.advance.advance.remaining →
      TracksOperators following limit (.binary op left right) a') :
    TracksOperators following limit left a := by
  intro b left left'
  have hKind : a.advance.current.kind = op.kind := BinaryOperator.ofKind?_eq_some_iff.mp hOp
  have hEnd : a.advance.current.kind ≠ .endOfInput := hKind ▸ op.kind_ne_endOfInput
  refine .upcoming (fun hNil => absurd hNil (tokens_ne_nil hEnd)) fun hNext => ?_
  rw [operators_of_stronger hOp hLimit, operators_of_stronger (hNext ▸ hOp) hLimit]
  refine .advancing (.behind hEnd fun _ => .advancing ?_)
  exact .andThen (ihRight b.advance.advance) fun right right' a' b' h _ =>
    ihRest right a' h b' _ _

theorem tracksOperators_of_stops {limit : Precedence} {left : Expr} (hStops : a.Stops limit) :
    TracksOperators following limit left a := by
  intro b left left'
  rw [operators_of_stops hStops]
  refine .upcoming (fun hNil => ⟨List.forall_mem_nil _, hNil⟩) fun hNext => ?_
  have hStopsAbove : b.Stops limit := by
    unfold Stops
    rwa [hNext]
  rw [operators_of_stops hStopsAbove]
  exact .stay left left'

/-! ## Statements -/

theorem tracksStatement_of_letWord (hKind : a.current.kind = .letWord)
    (ih : ∀ a' : Cursor, a'.remaining ≤ a.remaining →
      TracksExpression following .lowest a'.advance) : TracksStatement following a := by
  intro _ b
  refine .behind (by rw [hKind]; decide) fun hCurrent => ?_
  rw [statement_of_letWord hKind, statement_of_letWord (hCurrent ▸ hKind)]
  refine .andThen (.expect a b (by decide)) fun _ _ a₁ b₁ h₁ _ => ?_
  refine .andThen (.expect a₁ b₁ (by decide)) fun _ _ a₂ b₂ h₂ _ => ?_
  refine .advancing (.andThen (ih a₂ (Nat.le_trans h₂ h₁) b₂.advance) fun _ _ a₃ b₃ _ _ => ?_)
  exact .endStatement a₃ b₃ _ _

theorem tracksStatement_of_returnWord (hKind : a.current.kind = .returnWord)
    (ih : TracksExpression following .lowest a.advance) : TracksStatement following a := by
  intro _ b
  refine .behind (by rw [hKind]; decide) fun hCurrent => ?_
  rw [statement_of_returnWord hKind, statement_of_returnWord (hCurrent ▸ hKind)]
  exact .advancing (.andThen (ih b.advance) fun _ _ a' b' _ _ => .endStatement a' b' _ _)

theorem tracksStatement_of_expression (hLet : a.current.kind ≠ .letWord)
    (hReturn : a.current.kind ≠ .returnWord) (ih : TracksExpression following .lowest a) :
    TracksStatement following a := by
  intro hEnd b
  refine .matching (tokens_ne_nil hEnd) fun hCurrent => ?_
  rw [statement_of_expression hLet hReturn,
    statement_of_expression (hCurrent ▸ hLet) (hCurrent ▸ hReturn)]
  exact .andThen (ih b) fun _ _ a' b' _ _ => .endStatement a' b' _ _

/-! ## Blocks -/

theorem tracksAlternative_of_elseWord (hElse : a.upcoming.kind = .elseWord)
    (ih : ∀ a' : Cursor, a'.remaining ≤ a.advance.remaining → TracksBlock following a') :
    TracksAlternative following a := by
  intro b
  have hEnd : a.advance.current.kind ≠ .endOfInput := by rw [current_advance, hElse]; decide
  refine .upcoming (fun hNil => absurd hNil (tokens_ne_nil hEnd)) fun hNext => ?_
  rw [alternative, if_pos hElse, alternative, if_pos (hNext ▸ hElse)]
  refine .advancing (.behind hEnd fun _ => ?_)
  exact .andThen (.expect _ _ (by decide)) fun _ _ a' b' h _ => .mapValue _ _ (ih a' h b')

theorem tracksAlternative_of_ne (hElse : a.upcoming.kind ≠ .elseWord) :
    TracksAlternative following a := by
  intro b
  rw [alternative, if_neg hElse]
  refine .upcoming (fun hNil => ⟨List.forall_mem_nil _, hNil⟩) fun hNext => ?_
  rw [alternative, if_neg (hNext ▸ hElse)]
  exact .stay none none

theorem tracksBlock_of_rest (ih : TracksBlockRest following a.enterBlock) :
    TracksBlock following a := by
  intro b
  rw [block, block]
  exact .inBlock (ih b.enterBlock)

theorem tracksBlockRest_of_rightBrace (hBrace : a.current.kind = .rightBrace) :
    TracksBlockRest following a := by
  intro b
  refine .behind (by rw [hBrace]; decide) fun hCurrent => ?_
  rw [blockRest_of_rightBrace hBrace, blockRest_of_rightBrace (hCurrent ▸ hBrace)]
  exact .goto [] [] _ _ id id

theorem tracksBlockRest_of_end (hEnd : a.current.kind = .endOfInput) :
    TracksBlockRest following a := by
  intro b
  by_cases hNil : a.tokens = []
  · refine .of_exhausted ?_
    rw [blockRest_of_end hEnd]
    exact ⟨List.forall_mem_singleton.mpr rfl, by rw [Step.cursor_fail, hNil]; rfl⟩
  · refine .matching hNil fun hCurrent => .failing (fun hEnded => absurd hEnded hNil) ?_
    intro w b'
    rw [blockRest_of_end (hCurrent ▸ hEnd)]
    exact Attempt.not_yields_fail

theorem tracksBlockRest_of_statement (hBrace : a.current.kind ≠ .rightBrace)
    (hEnd : a.current.kind ≠ .endOfInput) (ihStatement : TracksStatement following a)
    (ihRest : ∀ a' : Cursor, a'.remaining ≤ a.remaining → TracksBlockRest following a'.advance) :
    TracksBlockRest following a := by
  intro b
  refine .matching (tokens_ne_nil hEnd) fun hCurrent => ?_
  rw [blockRest, if_neg hBrace, dif_neg hEnd, blockRest, if_neg (hCurrent ▸ hBrace),
    dif_neg (hCurrent ▸ hEnd)]
  refine .orRecover (ihStatement hEnd b) diagnostics_statement_ne_nil ?_ ?_
  · intro v w a' b' h _
    exact .advancing (.mapValue _ _ (ihRest a' h b'.advance))
  · intro atBrace a' h hTail
    cases atBrace with
    | true => exact ⟨List.forall_mem_nil _, hTail⟩
    | false =>
      exact ((ihRest a' h a'.advance).ended hTail).advancing

/-! ## The induction -/

/-- Each function that reads tracks the longer text if the functions it calls do. -/
theorem tracks_cases (following : List Token) :
    ReadingCases (TracksStatement following) (TracksExpression following)
      (TracksOperators following) (TracksOperand following) (TracksAlternative following)
      (TracksBlock following) (TracksBlockRest following) where
  binding := tracksStatement_of_letWord
  returning := tracksStatement_of_returnWord
  expressionStatement := tracksStatement_of_expression
  expression := tracksExpression_of_operand
  stronger := tracksOperators_of_stronger
  stops := tracksOperators_of_stops
  single := tracksOperand_of_isOperand
  badInteger := tracksOperand_of_bad_integer
  unary := tracksOperand_of_unary
  group := tracksOperand_of_leftParen
  conditional := tracksOperand_of_ifWord
  noOperand := tracksOperand_of_not_startsOperand
  alternative := tracksAlternative_of_elseWord
  noAlternative := tracksAlternative_of_ne
  block := tracksBlock_of_rest
  closed := tracksBlockRest_of_rightBrace
  unclosed := tracksBlockRest_of_end
  more := tracksBlockRest_of_statement

/-- Where a statement has come to the end of the text, nothing is left to read. -/
theorem mentionsEnd_of_exhausted {a : Cursor} (hEnd : a.current.kind ≠ .endOfInput)
    (h : (statement a).Exhausted) : ∀ d ∈ (program a).diagnostics, d.MentionsEnd := by
  have hNothing : ∀ {c : Cursor}, c.tokens.tail = [] → (program c.advance).diagnostics = [] := by
    intro c hTail
    rw [program_of_end (c := c.advance) (upcoming_of_tail_eq_nil hTail)]
    rfl
  cases hValue : (statement a).value with
  | some s =>
    rw [program_of_some hEnd hValue]
    refine List.forall_mem_append.mpr ⟨h.mentionsEnd, ?_⟩
    change ∀ d ∈ (program (statement a).cursor.advance).diagnostics, d.MentionsEnd
    rw [hNothing h.tail]
    exact List.forall_mem_nil _
  | none =>
    have hTail := tail_eq_nil_of_remaining_le (statement a).cursor.recover.remaining_le h.tail
    rw [program_of_none hEnd hValue]
    refine List.forall_mem_append.mpr ⟨h.mentionsEnd, ?_⟩
    change ∀ d ∈ (statement a).cursor.recover.diagnostics ++
      (program (statement a).cursor.recover.cursor.advance).diagnostics, d.MentionsEnd
    rw [diagnostics_recover, hNothing hTail]
    exact List.forall_mem_nil _

/-- The part of a well-formed text up to some token is wrong in nothing but that it ends. -/
theorem mentionsEnd_of_longer {a b : Cursor} (hTokens : b.tokens = a.tokens ++ following)
    (h : (program b).diagnostics = []) : ∀ d ∈ (program a).diagnostics, d.MentionsEnd := by
  induction a using program.induct generalizing b with
  | case1 a hEnd =>
    rw [program_of_end hEnd]
    exact List.forall_mem_nil _
  | case2 a hEnd ih =>
    have hCurrent : b.current = a.current := by
      rw [tokens_eq_cons hEnd] at hTokens
      exact current_eq hTokens
    have hEndAbove : b.current.kind ≠ .endOfInput := hCurrent ▸ hEnd
    cases hAbove : (statement b).value with
    | none =>
      rw [program_of_none hEndAbove hAbove] at h
      exact absurd (List.append_eq_nil_iff.mp h).1 (diagnostics_statement_ne_nil hAbove)
    | some w =>
      rw [program_of_some hEndAbove hAbove] at h
      obtain ⟨hFirst, hRest⟩ := List.append_eq_nil_iff.mp h
      have hTracks := (tracks_cases following).all.1 a hEnd b
      rcases hTracks.onward hTokens w _ ⟨hAbove, hFirst, rfl⟩ with
        hExhausted | ⟨v, _, ⟨hValue, hNone, rfl⟩, hTail⟩
      · exact mentionsEnd_of_exhausted hEnd hExhausted
      · rw [program_of_some hEnd hValue, Step.diagnostics_bind, hNone, List.nil_append]
        exact ih _ (statement a).remaining_le (b := (statement b).cursor.advance) hTail hRest

end Cursor

/-! ## Both directions -/

/-- The end of input is not part of what can be derived from the grammar. -/
theorem Derives.ne_endOfInput {n : Nonterminal} {ks : List Token.Kind} (h : Derives n ks) :
    ∀ k ∈ ks, k ≠ .endOfInput := by
  have hEnd : ∀ ks ∈ terminators, ∀ k ∈ ks, k ≠ .endOfInput := by decide
  induction h with
  | binding _ h _ | returning _ h _ | expression _ h _ =>
    have := hEnd _ h
    simp_all [or_imp]
  | operation _ op _ _ _ | unary op _ _ =>
    have := op.kind_ne_endOfInput
    simp_all [or_imp]
  | _ => simp_all [or_imp]

/-- A list of tokens is the beginning of a well-formed program exactly if all reports on it
mention the end of input. -/
theorem exists_completion_iff {tokens : List Token}
    (hPlain : ∀ t ∈ tokens, t.kind ≠ .endOfInput) :
    (∃ following : List Token, (∀ t ∈ following, t.kind ≠ .endOfInput) ∧
      (parse (tokens ++ following)).diagnostics = []) ↔
      ∀ d ∈ (parse tokens).diagnostics, d.MentionsEnd := by
  constructor
  · rintro ⟨following, -, h⟩
    exact mentionsEnd_of_longer (a := .start tokens) (b := .start (tokens ++ following)) rfl h
  · intro h
    obtain ⟨following, hDerives, hRange⟩ := exists_completion (c := .start tokens) hPlain h
    have hPlainAll : ∀ t ∈ tokens ++ following, t.kind ≠ .endOfInput := fun t ht =>
      hDerives.ne_endOfInput _ (List.mem_map_of_mem ht)
    refine ⟨following, fun t ht => hPlainAll t (List.mem_append_right _ ht), ?_⟩
    exact (diagnostics_parse_eq_nil_iff_written hPlainAll).mpr (hDerives.writable rfl hRange)

/-- `if (true) { 5 -` breaks off twice, in an operand and in a block. -/
theorem exists_completion_unclosed :
    let tokens : List Token := [⟨.ifWord, "if"⟩, ⟨.leftParen, "("⟩, ⟨.trueWord, "true"⟩,
      ⟨.rightParen, ")"⟩, ⟨.leftBrace, "\x7b"⟩, ⟨.integer, "5"⟩, ⟨.minus, "-"⟩]
    (∀ t ∈ tokens, t.kind ≠ .endOfInput) ∧
      (parse tokens).diagnostics =
        [.noOperand .endOfInput, .expectedToken .rightBrace .endOfInput] ∧
      ∃ following : List Token, (∀ t ∈ following, t.kind ≠ .endOfInput) ∧
        (parse (tokens ++ following)).diagnostics = [] := by
  intro tokens
  have hPlain : ∀ t ∈ tokens, t.kind ≠ .endOfInput := by decide
  have hDiagnostics : (parse tokens).diagnostics =
      [.noOperand .endOfInput, .expectedToken .rightBrace .endOfInput] := by decide +kernel
  refine ⟨hPlain, hDiagnostics, (exists_completion_iff hPlain).mpr ?_⟩
  rw [hDiagnostics]
  decide

end MonkeyLang
