import MonkeyLang.Proofs.Reading.Calls
import MonkeyLang.Proofs.Unclosed

/-!
# How far a parse advances

Every call begins further on than the one that makes it, or reads a smaller part, so a parse comes
to an end. There are two places where it moves on without looking at the token in front of it:
behind a statement in a block and behind one in a program. Where the input has ended these advances
go past the last token, but then the block is reported as unclosed, or the program is over. So there
is one of them for each block that is open there, and one for the program.

* `Cursor.reach` : where a cursor comes to when it passes all tokens that are left.
* `Attempt.Bounded` : how far an attempt reaches and what it reports, with one rule for each way to
  build an attempt.
* `bounded_cases` collects the cases for the induction over reading.
* `position_parse_le` : a parse ends, and the number of its advances is bounded.
-/

namespace MonkeyLang

open Cursor

namespace Cursor

/-- Where the cursor comes to when it passes all tokens that are left. -/
def reach (c : Cursor) : Nat :=
  c.position + c.remaining

variable {c : Cursor}

/-- Inside the list an advance passes a token. -/
theorem reach_advance (h : c.tokens ≠ []) : c.advance.reach = c.reach := by
  have hPos : 0 < c.remaining := List.length_pos_iff.mpr h
  unfold reach
  rw [remaining_advance]
  change c.position + 1 + (c.remaining - 1) = c.position + c.remaining
  omega

/-- Past the end it passes none. -/
theorem reach_advance_of_nil (h : c.tokens = []) : c.advance.reach = c.reach + 1 := by
  have hNone : c.remaining = 0 := List.length_eq_zero_iff.mpr h
  unfold reach
  rw [remaining_advance]
  change c.position + 1 + (c.remaining - 1) = c.position + c.remaining + 1
  omega

/-- Skipping stops before the end of the tokens. -/
theorem reach_skipStatement (nesting : Nat) (c : Cursor) :
    (skipStatement nesting c).cursor.reach = c.reach := by
  fun_induction skipStatement nesting c with
  | case5 nesting c hEnd hOwn hSemicolon nesting' hStop ih =>
    exact ih.trans (reach_advance (tokens_ne_nil hEnd))
  | _ => rfl

theorem reach_stopped (c : Cursor) : c.stopped.reach = c.statement.cursor.reach :=
  reach_skipStatement 0 _

end Cursor

theorem opening_le_of_suffix {ts us : List Token} (h : ts <:+ us) : opening ts ≤ opening us :=
  h.sublist.countP_le

/-- An attempt passes the end of the tokens at most once for each missing brace that it reports.
It reports one of them at most for each opening brace that it passes, and `opened` for those passed
before. If it succeeds, it ends on a token. -/
structure Attempt.Bounded {c : Cursor} {α : Type} (opened : Nat) (s : Attempt c α) : Prop where
  reach : s.cursor.reach ≤ c.reach + missingBraces s.diagnostics
  braces : missingBraces s.diagnostics + opening s.cursor.tokens ≤ opening c.tokens + opened
  onToken : s.value.isSome = true → s.cursor.tokens ≠ []

namespace Attempt.Bounded

variable {c : Cursor} {α β : Type} {opened : Nat}

theorem stay (v : α) (h : c.tokens ≠ []) : Bounded opened (.stay (some v) : Attempt c α) where
  reach := Nat.le_refl _
  braces := by
    rw [Step.diagnostics_stay, missingBraces_nil, Nat.zero_add]
    exact Nat.le_add_right _ _
  onToken _ := h

theorem fail {d : Diagnostic} (h : missingBraces [d] ≤ opened) :
    Bounded opened (.fail d : Attempt c α) where
  reach := Nat.le_add_right _ _
  braces := by
    rw [Nat.add_comm]
    exact Nat.add_le_add_left h _
  onToken hSome := nomatch hSome

theorem advancing {s : Attempt c.advance α} (hToken : c.tokens ≠ []) (h : Bounded opened s) :
    Bounded opened (.advancing s : Attempt c α) where
  reach := by
    have hReach := h.reach
    rwa [reach_advance hToken] at hReach
  braces := Nat.le_trans h.braces
    (Nat.add_le_add_right (opening_le_of_suffix (List.tail_suffix c.tokens)) _)
  onToken := h.onToken

theorem advance (v : α) (h : c.upcoming.kind ≠ .endOfInput) :
    Bounded opened (.goto (some v) c.advance c.remaining_advance_le : Attempt c α) :=
  advancing (fun hNil => h (upcoming_of_tail_eq_nil (by rw [hNil]; rfl)))
    (stay v (tokens_ne_nil (c := c.advance) h))

theorem close (v : α) (h : c.current.kind = .rightBrace) :
    Bounded opened (.goto (some v) c.closeBlock c.remaining_closeBlock_le : Attempt c α) := by
  have hToken : c.tokens ≠ [] := tokens_ne_nil (by rw [h]; decide)
  have hStay : Bounded opened (.stay (some v) : Attempt c α) := stay v hToken
  exact ⟨hStay.reach, hStay.braces, fun _ => hToken⟩

/-- The brace that opens the block is passed in front of it. -/
theorem inBlock {s : Attempt c.enterBlock α} (hBrace : c.current.kind = .leftBrace)
    (h : Bounded 1 s) : Bounded 0 (.inBlock s : Attempt c α) := by
  have hCons := tokens_eq_cons (c := c) (by rw [hBrace]; decide)
  have hOpening : opening c.tokens = opening c.tokens.tail + 1 := by
    rw [hCons, opening, List.countP_cons, hBrace]
    rfl
  have hEnter : c.enterBlock.reach = c.reach :=
    reach_advance (c := c) (hCons ▸ List.cons_ne_nil _ _)
  exact ⟨hEnter ▸ h.reach, hOpening ▸ h.braces, h.onToken⟩

theorem mapValue {s : Attempt c α} (f : α → β) (h : Bounded opened s) :
    Bounded opened (s.mapValue f) where
  reach := h.reach
  braces := h.braces
  onToken hSome := h.onToken (by rwa [Attempt.mapValue, Step.value_map, Option.isSome_map] at hSome)

theorem bind {s : Step c α} {f : α → (c' : Cursor) → c'.remaining ≤ c.remaining → Attempt c' β}
    (hReach : s.cursor.reach ≤ c.reach + missingBraces s.diagnostics)
    (hBraces : missingBraces s.diagnostics + opening s.cursor.tokens ≤ opening c.tokens)
    (hf : Bounded opened (f s.value s.cursor s.remaining_le)) :
    Bounded opened (Step.bind s f : Attempt c β) where
  reach := by
    have hNext := hf.reach
    rw [Step.diagnostics_bind, missingBraces_append, Step.cursor_bind]
    omega
  braces := by
    have hNext := hf.braces
    rw [Step.diagnostics_bind, missingBraces_append, Step.cursor_bind]
    omega
  onToken := hf.onToken

/-- What holds of the place where the first attempt succeeds may be used for the second one. -/
theorem andThen_of {s : Attempt c α}
    {f : α → (c' : Cursor) → c'.remaining ≤ c.remaining → Attempt c' β} {P : Cursor → Prop}
    (hs : Bounded 0 s) (hPlace : s.value.isSome = true → P s.cursor)
    (hf : ∀ v c' h, P c' → Bounded opened (f v c' h)) : Bounded opened (s.andThen f) := by
  cases hValue : s.value with
  | none =>
    rw [Attempt.andThen_of_none hValue]
    exact ⟨hs.reach, Nat.le_trans hs.braces (Nat.add_le_add_left (Nat.zero_le _) _), nofun⟩
  | some v =>
    rw [Attempt.andThen_of_some hValue]
    exact bind hs.reach hs.braces (hf v _ _ (hPlace (by rw [hValue]; rfl)))

theorem andThen {s : Attempt c α}
    {f : α → (c' : Cursor) → c'.remaining ≤ c.remaining → Attempt c' β} (hs : Bounded 0 s)
    (hf : ∀ v c' h, c'.tokens ≠ [] → Bounded opened (f v c' h)) : Bounded opened (s.andThen f) :=
  andThen_of (P := fun c' => c'.tokens ≠ []) hs hs.onToken hf

theorem expect {kind : Token.Kind} (hBrace : kind ≠ .rightBrace) (hEnd : kind ≠ .endOfInput) :
    Bounded opened (c.expect kind) := by
  unfold Cursor.expect
  split
  case isTrue hNext => exact advance () (hNext ▸ hEnd)
  case isFalse =>
    refine fail ?_
    rw [missingBraces_singleton (isMissingBrace_expectedToken hBrace)]
    exact Nat.zero_le opened

/-- A token that is expected, and what follows it. -/
theorem expect_andThen {kind : Token.Kind}
    {f : Unit → (c' : Cursor) → c'.remaining ≤ c.remaining → Attempt c' β}
    (hBrace : kind ≠ .rightBrace) (hEnd : kind ≠ .endOfInput)
    (hf : ∀ v c' h, c'.current.kind = kind → Bounded opened (f v c' h)) :
    Bounded opened ((c.expect kind).andThen f) := by
  refine andThen_of (P := fun c' => c'.current.kind = kind) (expect hBrace hEnd) ?_ hf
  intro hSome
  obtain ⟨u, hValue⟩ := Option.isSome_iff_exists.mp hSome
  exact current_expect hValue

theorem endStatement (v : α) (h : c.tokens ≠ []) : Bounded opened (c.endStatement v) := by
  unfold Cursor.endStatement
  split
  case isTrue hNext => exact advance v (by rw [hNext]; decide)
  case isFalse => exact stay v h

end Attempt.Bounded

namespace Cursor

open Attempt (Bounded)

variable {c : Cursor}

/-! ## Reading -/

/-- A conditional passes the end no more often than its test and its blocks. -/
theorem bounded_conditional (hKind : c.current.kind = .ifWord)
    (ihTest : ∀ c' : Cursor, c'.remaining ≤ c.remaining → Bounded 0 (expression .lowest c'.advance))
    (ihBlock : ∀ c' : Cursor, c'.remaining ≤ c.remaining →
      ∀ c'' : Cursor, c''.remaining ≤ c'.advance.remaining →
        c''.current.kind = .leftBrace → Bounded 0 (block c''))
    (ihOther : ∀ c' : Cursor, c'.remaining ≤ c.remaining →
      ∀ c'' : Cursor, c''.remaining ≤ c'.advance.remaining →
        c''.tokens ≠ [] → Bounded 0 (alternative c'')) :
    Bounded 0 (operand c) := by
  rw [operand_of_ifWord hKind]
  refine .expect_andThen (by decide) (by decide) fun _ c₁ h₁ hKind₁ => ?_
  have hTest := ihTest c₁ h₁
  refine .advancing (tokens_ne_nil (by rw [hKind₁]; decide)) ?_
  refine .andThen hTest fun _ c₂ h₂ _ => ?_
  refine .expect_andThen (by decide) (by decide) fun _ c₃ h₃ _ => ?_
  refine .expect_andThen (by decide) (by decide) fun _ c₄ h₄ hKind₄ => ?_
  have hLess := Nat.le_trans h₄ (Nat.le_trans h₃ h₂)
  have hBlock := ihBlock c₁ h₁ c₄ hLess hKind₄
  refine .andThen hBlock fun _ c₅ h₅ hToken => ?_
  exact .mapValue _ (ihOther c₁ h₁ c₅ (Nat.le_trans h₅ hLess) hToken)

/-- The advance behind a statement passes the end only where the block is reported as unclosed. -/
theorem bounded_behind_statement (ih : Bounded 1 (blockRest c.advance)) :
    Bounded 1 (.advancing (blockRest c.advance) : Attempt c (List Statement)) := by
  by_cases hTokens : c.tokens = []
  · -- The block fails at once, and its own report pays for this advance.
    have hTail : c.tokens.tail = [] := by rw [hTokens]; rfl
    rw [blockRest_of_end (c := c.advance) (upcoming_of_tail_eq_nil hTail)]
    refine ⟨Nat.le_of_eq (reach_advance_of_nil hTokens), ?_, nofun⟩
    change 1 + opening c.tokens.tail ≤ opening c.tokens + 1
    rw [hTail, hTokens]
    exact Nat.le_refl _
  · exact .advancing hTokens ih

/-- Recovery passes no end and reports nothing. -/
theorem bounded_recover_bind {α : Type}
    {f : Bool → (c' : Cursor) → c'.remaining ≤ c.remaining → Attempt c' α} {opened : Nat}
    (hf : Bounded opened (f c.recover.value c.recover.cursor c.recover.remaining_le)) :
    Bounded opened (c.recover.bind f : Attempt c α) := by
  refine .bind ?_ ?_ hf
  · rw [diagnostics_recover]
    exact Nat.le_of_eq (reach_skipStatement 0 c)
  · rw [diagnostics_recover, missingBraces_nil, Nat.zero_add]
    exact opening_le_of_suffix (suffix_skipStatement 0 c)

/-- The rest of a block passes the end no more often than its first statement and what is left. -/
theorem bounded_blockRest (hBrace : c.current.kind ≠ .rightBrace)
    (hEnd : c.current.kind ≠ .endOfInput) (ihStatement : Bounded 0 (statement c))
    (ihRest : ∀ c' : Cursor, c'.remaining ≤ c.remaining → Bounded 1 (blockRest c'.advance)) :
    Bounded 1 (blockRest c) := by
  cases hValue : (statement c).value with
  | some s =>
    have hToken := ihStatement.onToken (by rw [hValue]; rfl)
    rw [blockRest_of_some hBrace hEnd hValue]
    exact .bind ihStatement.reach ihStatement.braces
      (.advancing hToken (.mapValue _ (ihRest _ (statement c).remaining_le)))
  | none =>
    rw [blockRest_of_none hBrace hEnd hValue]
    refine .bind ihStatement.reach ihStatement.braces (bounded_recover_bind ?_)
    split
    case isTrue hOwn =>
      exact .close [] (current_of_atOwnBrace (atOwnBrace_of_value_recover hOwn))
    case isFalse => exact bounded_behind_statement (ihRest _ c.remaining_stopped_le)

/-- Each function that reads is bounded if the functions it calls are. -/
theorem bounded_cases : ReadingCases (fun c => Bounded 0 (statement c))
    (fun limit c => Bounded 0 (expression limit c))
    (fun limit left c => c.tokens ≠ [] → Bounded 0 (operators limit left c))
    (fun c => Bounded 0 (operand c)) (fun c => c.tokens ≠ [] → Bounded 0 (alternative c))
    (fun c => c.current.kind = .leftBrace → Bounded 0 (block c))
    (fun c => Bounded 1 (blockRest c)) where
  binding {c} hKind ih := by
    rw [statement_of_letWord hKind]
    refine .expect_andThen (by decide) (by decide) fun _ c₁ h₁ _ => ?_
    refine .expect_andThen (by decide) (by decide) fun _ c₂ h₂ hKind₂ => ?_
    have hValue := ih c₂ (Nat.le_trans h₂ h₁)
    exact .advancing (tokens_ne_nil (by rw [hKind₂]; decide))
      (.andThen hValue fun _ _ _ hToken => .endStatement _ hToken)
  returning {c} hKind ih := by
    rw [statement_of_returnWord hKind]
    exact .advancing (tokens_ne_nil (by rw [hKind]; decide))
      (.andThen ih fun _ _ _ hToken => .endStatement _ hToken)
  expressionStatement {c} hLet hReturn ih := by
    rw [statement_of_expression hLet hReturn]
    exact .andThen ih fun _ _ _ hToken => .endStatement _ hToken
  expression {limit c} ihOperand ihRest := by
    rw [expression]
    exact .andThen ihOperand ihRest
  stronger {limit left c op} hOp hLimit ihRight ihRest hToken := by
    have hNext : c.upcoming.kind ≠ .endOfInput := by
      rw [BinaryOperator.ofKind?_eq_some_iff.mp hOp]
      cases op <;> decide
    rw [operators_of_stronger hOp hLimit]
    exact .advancing hToken (.advancing (tokens_ne_nil (c := c.advance) hNext)
      (.andThen ihRight ihRest))
  stops {limit left c} hStops hToken := by
    rw [operators_of_stops hStops]
    exact .stay left hToken
  single {c e} h := by
    rw [operand_of_isOperand h]
    exact .stay e (tokens_ne_nil h.kind_ne_endOfInput)
  badInteger {c} hKind hValue := by
    rw [operand_of_bad_integer hKind hValue]
    exact .fail (Nat.le_refl 0)
  unary {c} op hOp ih := by
    have hToken : c.tokens ≠ [] := tokens_ne_nil (by
      rw [UnaryOperator.ofKind?_eq_some_iff.mp hOp]
      cases op <;> decide)
    rw [operand_of_unary op hOp]
    exact .advancing hToken (.mapValue _ ih)
  group {c} hKind ih := by
    rw [operand_of_leftParen hKind]
    exact .advancing (tokens_ne_nil (by rw [hKind]; decide))
      (.andThen ih fun _ _ _ _ => .mapValue _ (.expect (by decide) (by decide)))
  conditional := bounded_conditional
  noOperand {c} hStarts := by
    rw [operand_of_not_startsOperand hStarts]
    exact .fail (Nat.le_refl 0)
  alternative {c} hElse ih hToken := by
    rw [alternative, if_pos hElse]
    exact .advancing hToken (.expect_andThen (by decide) (by decide) fun _ c' h hKind =>
      .mapValue _ (ih c' h hKind))
  noAlternative {c} hElse hToken := by
    rw [alternative, if_neg hElse]
    exact .stay none hToken
  block {c} ih hBrace := by
    rw [block]
    exact .inBlock hBrace ih
  closed {c} hBrace := by
    rw [blockRest_of_rightBrace hBrace]
    exact .close [] hBrace
  unclosed {c} hEnd := by
    rw [blockRest_of_end hEnd]
    exact .fail (Nat.le_refl 1)
  more := bounded_blockRest

/-! ## Programs -/

/-- Where a program ends, and how many blocks it reports as unclosed. -/
structure ProgramBounded (c : Cursor) : Prop where
  atEnd : (program c).cursor.current.kind = .endOfInput
  reach : (program c).cursor.reach ≤ c.reach + missingBraces (program c).diagnostics + 1
  braces : missingBraces (program c).diagnostics ≤ opening c.tokens

theorem programBounded_of_end (hEnd : c.current.kind = .endOfInput) : ProgramBounded c := by
  constructor
  all_goals rw [program_of_end hEnd]
  · exact hEnd
  · exact Nat.le_add_right _ _
  · exact Nat.zero_le _

theorem programBounded_of_some {s : Statement} (hEnd : c.current.kind ≠ .endOfInput)
    (hValue : (statement c).value = some s)
    (ih : ProgramBounded (statement c).cursor.advance) : ProgramBounded c := by
  obtain ⟨hReach, hBraces, hToken⟩ : Bounded 0 (statement c) := bounded_cases.all.1 c
  have hNext := ih.reach
  rw [reach_advance (hToken (by rw [hValue]; rfl))] at hNext
  have hPassed := opening_le_of_suffix (List.tail_suffix (statement c).cursor.tokens)
  have hRest : _ ≤ opening (statement c).cursor.tokens.tail := ih.braces
  constructor
  all_goals rw [program_of_some hEnd hValue]
  · exact ih.atEnd
  · rw [Step.diagnostics_bind, missingBraces_append, Step.cursor_bind, Step.diagnostics_advancing,
      Step.diagnostics_map, Step.cursor_advancing, Step.cursor_map]
    omega
  · rw [Step.diagnostics_bind, missingBraces_append, Step.diagnostics_advancing,
      Step.diagnostics_map]
    omega

/-- The advance behind a statement passes the end only where the program is over. -/
theorem ProgramBounded.reach_behind (h : ProgramBounded c.advance) :
    (program c.advance).cursor.reach ≤
      c.reach + missingBraces (program c.advance).diagnostics + 1 := by
  by_cases hTokens : c.tokens = []
  · have hTail : c.tokens.tail = [] := by rw [hTokens]; rfl
    rw [program_of_end (c := c.advance) (upcoming_of_tail_eq_nil hTail)]
    exact Nat.le_of_eq (reach_advance_of_nil hTokens)
  · exact reach_advance hTokens ▸ h.reach

theorem programBounded_of_none (hEnd : c.current.kind ≠ .endOfInput)
    (hValue : (statement c).value = none) (ih : ProgramBounded c.stopped.advance) :
    ProgramBounded c := by
  obtain ⟨hReach, hBraces, -⟩ : Bounded 0 (statement c) := bounded_cases.all.1 c
  have hSkipped : opening c.stopped.tokens ≤ opening (statement c).cursor.tokens :=
    opening_le_of_suffix (suffix_skipStatement 0 (statement c).cursor)
  have hPassed := opening_le_of_suffix (List.tail_suffix c.stopped.tokens)
  have hBehind := ih.reach_behind
  rw [reach_stopped] at hBehind
  have hRest : _ ≤ opening c.stopped.tokens.tail := ih.braces
  have hReports := (program_of_onward hEnd hValue).2
  have hCursor : (program c).cursor = (program c.stopped.advance).cursor := by
    rw [program_of_none hEnd hValue]
    rfl
  constructor
  · rw [hCursor]
    exact ih.atEnd
  · rw [hCursor, hReports, missingBraces_append]
    omega
  · rw [hReports, missingBraces_append]
    omega

/-- Outside of all blocks, the end is passed at most once more, behind the last statement. -/
theorem programBounded (c : Cursor) : ProgramBounded c := by
  induction c using program.induct with
  | case1 c hEnd => exact programBounded_of_end hEnd
  | case2 c hEnd ih =>
    cases hValue : (statement c).value with
    | some s => exact programBounded_of_some hEnd hValue (ih _ (statement c).remaining_le)
    | none => exact programBounded_of_none hEnd hValue (ih _ c.remaining_stopped_le)

end Cursor

/-- A parse ends: no call makes calls for ever, and each round of a loop begins further on than the
one before. It ends at the end of the input, and besides one advance for each token there are at
most one for each block that is still open there and reported as unclosed, and one for the program.
There are no more such blocks than opening braces. -/
theorem position_parse_le (tokens : List Token) :
    (WellFounded fun k' k : Call => k' ∈ k.direct) ∧
      (∀ k k' : Call, k' ∈ k.direct → k'.rank = k.rank → k'.place.remaining < k.place.remaining) ∧
      (parse tokens).cursor.current.kind = .endOfInput ∧
      (parse tokens).cursor.position + (parse tokens).cursor.remaining ≤
        tokens.length + missingBraces (parse tokens).diagnostics + 1 ∧
      missingBraces (parse tokens).diagnostics ≤ opening tokens ∧
      (parse tokens).cursor.position ≤ tokens.length + opening tokens + 1 := by
  obtain ⟨hEnd, hReach, hBraces⟩ := Cursor.programBounded (.start tokens)
  have hStart : (Cursor.start tokens).reach = tokens.length := Nat.zero_add _
  rw [hStart] at hReach
  have hPosition : (parse tokens).cursor.position ≤ (parse tokens).cursor.reach :=
    Nat.le_add_right _ _
  refine ⟨Call.wellFounded_direct, fun k k' hDirect hRank => ?_, hEnd, hReach, hBraces, ?_⟩
  · have hSmaller := (Call.leads_of_mem_direct hDirect).smaller
    exact hSmaller.resolve_right (Nat.not_lt.mpr (Nat.le_of_eq hRank.symm))
  · refine Nat.le_trans (Nat.le_trans hPosition hReach) ?_
    exact Nat.succ_le_succ (Nat.add_le_add_left hBraces _)

/-- The bound is reached by `if (a) {(`: the block goes past the end behind the statement that has
been given up in it, and so does the program. -/
example : (parse [⟨.ifWord, "if"⟩, ⟨.leftParen, "("⟩, ⟨.identifier, "a"⟩, ⟨.rightParen, ")"⟩,
    ⟨.leftBrace, "\x7b"⟩, ⟨.leftParen, "("⟩]).cursor.position = 6 + 1 + 1 := by
  decide +kernel

end MonkeyLang
