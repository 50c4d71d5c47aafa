import MonkeyLang.Proofs.Reading.Recovery

/-!
# The calls of a parse

The functions that read call one another, and recovery calls a loop that skips tokens. Which calls
a call makes, and in which order, is read off their definitions; the rounds of a loop count as
calls too. So every call is the root of a tree, which is finite as the calls get smaller: each
begins further on than the one that makes it, or reads a smaller part from the same place.

* `Call.direct` : the calls that a call makes itself. `Call.inner` : all calls made in the course
  of a call.
* `Call.size_lt_of_mem_direct`, `Call.wellFounded_direct` : calls get smaller.
* `Call.tree_induction` : induction over the tree of calls.
* `Call.forall_mem_inner` : what calls hand on to the calls they make holds of all inner ones.
-/

namespace MonkeyLang

open Cursor

/-- What follows an attempt that succeeds. Nothing follows one that fails. -/
def Attempt.onward {c : Cursor} {α β : Type} (s : Attempt c α) (f : α → Cursor → List β) : List β :=
  match s.value with
  | some a => f a s.cursor
  | none => []

namespace Attempt

variable {c : Cursor} {α β : Type} {s : Attempt c α} {f : α → Cursor → List β}

theorem onward_of_some {a : α} (h : s.value = some a) : s.onward f = f a s.cursor := by
  rw [onward, h]

theorem onward_of_none (h : s.value = none) : s.onward f = [] := by
  rw [onward, h]

theorem onward_nil (s : Attempt c α) : (s.onward fun _ _ => ([] : List β)) = [] := by
  unfold onward
  split <;> rfl

theorem mem_onward {b : β} (h : b ∈ s.onward f) : ∃ a, s.value = some a ∧ b ∈ f a s.cursor := by
  cases hValue : s.value with
  | some a =>
    rw [onward_of_some hValue] at h
    exact ⟨a, rfl, h⟩
  | none =>
    rw [onward_of_none hValue] at h
    cases h

end Attempt

/-- A call of one of the functions that a parse is made of. -/
inductive Call
  | program (c : Cursor)
  | statement (c : Cursor)
  | expression (limit : Precedence) (c : Cursor)
  | operand (c : Cursor)
  | operators (limit : Precedence) (left : Expr) (c : Cursor)
  | alternative (c : Cursor)
  | block (c : Cursor)
  | blockRest (c : Cursor)
  | recover (c : Cursor)
  | skip (nesting : Nat) (c : Cursor)

namespace Call

/-- Where a call begins. -/
def place : Call → Cursor
  | program c | statement c | expression _ c | operand c | operators _ _ c | alternative c
  | block c | blockRest c | recover c | skip _ c => c

/-- Calls with a smaller rank may be made without moving on. -/
def rank : Call → Nat
  | operand _ | operators _ _ _ => 0
  | expression _ _ | skip _ _ => 1
  | statement _ | recover _ => 2
  | program _ | blockRest _ => 3
  | block _ => 4
  | alternative _ => 5

/-- What gets smaller from call to call: first the number of tokens left, then the rank. -/
def size (k : Call) : Nat :=
  6 * k.place.remaining + k.rank

/-- The calls that a call makes itself, in order. -/
def direct : Call → List Call
  | program c =>
    if c.current.kind = .endOfInput then []
    else if c.statement.value.isSome then [statement c, program c.statement.cursor.advance]
    else [statement c, recover c.statement.cursor, program c.stopped.advance]
  | statement c =>
    match c.current.kind with
    | .letWord =>
      (c.expect .identifier).onward fun _ c₁ =>
        (c₁.expect .assign).onward fun _ c₂ => [expression .lowest c₂.advance]
    | .returnWord => [expression .lowest c.advance]
    | _ => [expression .lowest c]
  | expression limit c => operand c :: c.operand.onward fun left c' => [operators limit left c']
  | operand c =>
    match c.current.kind with
    | .bang | .minus => [expression .unary c.advance]
    | .leftParen => [expression .lowest c.advance]
    | .ifWord =>
      (c.expect .leftParen).onward fun _ c₁ =>
        expression .lowest c₁.advance :: (c₁.advance.expression .lowest).onward fun _ c₂ =>
          (c₂.expect .rightParen).onward fun _ c₃ =>
            (c₃.expect .leftBrace).onward fun _ c₄ =>
              block c₄ :: c₄.block.onward fun _ c₅ => [alternative c₅]
    | _ => []
  | operators limit left c =>
    match BinaryOperator.ofKind? c.upcoming.kind with
    | some op =>
      if limit < op.precedence then
        expression op.precedence c.advance.advance ::
          (c.advance.advance.expression op.precedence).onward fun right c' =>
            [operators limit (.binary op left right) c']
      else []
    | none => []
  | alternative c =>
    if c.upcoming.kind = .elseWord then
      (c.advance.expect .leftBrace).onward fun _ c' => [block c']
    else []
  | block c => [blockRest c.enterBlock]
  | blockRest c =>
    if c.current.kind = .rightBrace ∨ c.current.kind = .endOfInput then []
    else if c.statement.value.isSome then [statement c, blockRest c.statement.cursor.advance]
    else if c.statement.cursor.recover.value then [statement c, recover c.statement.cursor]
    else [statement c, recover c.statement.cursor, blockRest c.stopped.advance]
  | recover c => [skip 0 c]
  | skip nesting c =>
    if c.current.kind = .endOfInput ∨ nesting = 0 ∧ (c.atOwnBrace ∨ c.current.kind = .semicolon) ∨
        c.upcoming.kind = .endOfInput ∨
        nestingAfter nesting c.current.kind = 0 ∧ 0 < c.depth ∧ c.upcoming.kind = .rightBrace then
      []
    else [skip (nestingAfter nesting c.current.kind) c.advance]

/-- Calls that read a part of a statement. -/
def isPart : Call → Bool
  | expression _ _ | operand _ | operators _ _ _ | alternative _ | block _ => true
  | program _ | statement _ | blockRest _ | recover _ | skip _ _ => false

/-- Calls that read a statement or a part of one, outside of the blocks in it. -/
def inStatement : Call → Bool
  | statement _ | expression _ _ | operand _ | operators _ _ _ | alternative _ => true
  | program _ | block _ | blockRest _ | recover _ | skip _ _ => false

section cases

variable {c : Cursor}

/-! ## The calls made in each case -/

theorem direct_program_of_end (h : c.current.kind = .endOfInput) : (program c).direct = [] := by
  rw [direct, if_pos h]

theorem direct_program_of_some (hEnd : c.current.kind ≠ .endOfInput) {s : Statement}
    (h : c.statement.value = some s) :
    (program c).direct = [statement c, program c.statement.cursor.advance] := by
  rw [direct, if_neg hEnd, h]
  rfl

theorem direct_program_of_none (hEnd : c.current.kind ≠ .endOfInput)
    (h : c.statement.value = none) :
    (program c).direct = [statement c, recover c.statement.cursor, program c.stopped.advance] := by
  rw [direct, if_neg hEnd, h]
  rfl

theorem direct_statement_of_letWord (h : c.current.kind = .letWord) :
    (statement c).direct = (c.expect .identifier).onward fun _ c₁ =>
      (c₁.expect .assign).onward fun _ c₂ => [expression .lowest c₂.advance] := by
  rw [direct, h]

theorem direct_statement_of_returnWord (h : c.current.kind = .returnWord) :
    (statement c).direct = [expression .lowest c.advance] := by
  rw [direct, h]

theorem direct_statement_of_expression (hLet : c.current.kind ≠ .letWord)
    (hReturn : c.current.kind ≠ .returnWord) :
    (statement c).direct = [expression .lowest c] := by
  rw [direct]
  split
  · exact absurd ‹_› hLet
  · exact absurd ‹_› hReturn
  · rfl

theorem direct_operand_of_isOperand {e : Expr} (h : c.current.IsOperand e) :
    (operand c).direct = [] := by
  cases h with
  | identifier hKind | integer hKind _ | trueWord hKind | falseWord hKind => rw [direct, hKind]

theorem direct_operand_of_unary (op : UnaryOperator)
    (h : UnaryOperator.ofKind? c.current.kind = some op) :
    (operand c).direct = [expression .unary c.advance] := by
  rw [direct, UnaryOperator.ofKind?_eq_some_iff.mp h]
  cases op <;> rfl

theorem direct_operand_of_leftParen (h : c.current.kind = .leftParen) :
    (operand c).direct = [expression .lowest c.advance] := by
  rw [direct, h]

theorem direct_operand_of_ifWord (h : c.current.kind = .ifWord) :
    (operand c).direct = (c.expect .leftParen).onward fun _ c₁ =>
      expression .lowest c₁.advance :: (c₁.advance.expression .lowest).onward fun _ c₂ =>
        (c₂.expect .rightParen).onward fun _ c₃ =>
          (c₃.expect .leftBrace).onward fun _ c₄ =>
            block c₄ :: c₄.block.onward fun _ c₅ => [alternative c₅] := by
  rw [direct, h]

theorem direct_operand_of_not_startsOperand (h : c.current.kind.startsOperand = false) :
    (operand c).direct = [] := by
  unfold Token.Kind.startsOperand at h
  rw [direct]
  split <;> simp_all

theorem direct_operators_of_stronger {limit : Precedence} {left : Expr} {op : BinaryOperator}
    (h : BinaryOperator.ofKind? c.upcoming.kind = some op) (hLimit : limit < op.precedence) :
    (operators limit left c).direct =
      expression op.precedence c.advance.advance ::
        (c.advance.advance.expression op.precedence).onward fun right c' =>
          [operators limit (.binary op left right) c'] := by
  simp only [direct, h, if_pos hLimit]

theorem direct_operators_of_stops {limit : Precedence} {left : Expr} (h : c.Stops limit) :
    (operators limit left c).direct = [] := by
  unfold Stops at h
  rw [direct]
  split <;> simp_all

end cases

/-! ## What a call hands on -/

/-- What holds of a call `k` and a call `k'` that it makes. The second one begins further on, or it
is smaller from the same place. In a statement it reads a part, and stays in the statement unless
it begins on the opening brace of a block. -/
structure Leads (k k' : Call) : Prop where
  suffix : k'.place.tokens <:+ k.place.tokens
  smaller : k'.place.remaining < k.place.remaining ∨ k'.rank < k.rank
  stays : k.inStatement = true →
    k'.isPart = true ∧ (k'.inStatement = true ∨ k'.place.current.kind = .leftBrace)

/-- A call behind the first token of what the other one has to read. -/
theorem Leads.further {k k' : Call} (hPos : 0 < k.place.remaining)
    (h : k'.place.tokens <:+ k.place.advance.tokens)
    (hStays : k.inStatement = true →
      k'.isPart = true ∧ (k'.inStatement = true ∨ k'.place.current.kind = .leftBrace)) :
    Leads k k' where
  suffix := h.trans (List.tail_suffix _)
  smaller := by
    have hLe : k'.place.remaining ≤ k.place.advance.remaining := h.length_le
    rw [remaining_advance] at hLe
    omega
  stays := hStays

end Call

namespace Cursor

/-! ## The tokens that are left -/

variable {c c' : Cursor}

theorem advance_suffix (h : c'.tokens <:+ c.tokens) : c'.advance.tokens <:+ c.advance.tokens := by
  obtain ⟨passed, hPassed⟩ := h
  change c'.tokens.tail <:+ c.tokens.tail
  rw [← hPassed]
  cases passed with
  | nil => exact List.suffix_refl _
  | cons t passed => exact (List.tail_suffix _).trans (List.suffix_append _ _)

theorem suffix_statement (c : Cursor) : c.statement.cursor.tokens <:+ c.tokens :=
  invariant_suffix.reading.1 c

theorem suffix_expression (limit : Precedence) (c : Cursor) :
    (c.expression limit).cursor.tokens <:+ c.tokens :=
  invariant_suffix.reading.2.1 limit c

theorem suffix_operand (c : Cursor) : c.operand.cursor.tokens <:+ c.tokens :=
  invariant_suffix.reading.2.2.2.1 c

theorem suffix_block (c : Cursor) : c.block.cursor.tokens <:+ c.tokens :=
  invariant_suffix.reading.2.2.2.2.2.1 c

theorem suffix_expect (kind : Token.Kind) (c : Cursor) :
    (c.expect kind).cursor.tokens <:+ c.tokens :=
  invariant_suffix.expect c kind

theorem suffix_stopped (c : Cursor) : c.stopped.tokens <:+ c.tokens :=
  (suffix_skipStatement 0 _).trans c.suffix_statement

/-- An expected token that has been read is the current one. -/
theorem current_expect {kind : Token.Kind} {u : Unit} (h : (c.expect kind).value = some u) :
    (c.expect kind).cursor.current.kind = kind := by
  unfold expect at h ⊢
  split at h
  case isTrue hKind =>
    rw [if_pos hKind]
    exact hKind
  case isFalse => cases h

end Cursor

namespace Call

variable {k : Call} {c : Cursor}

theorem leads_program (h : k ∈ (program c).direct) : Leads (program c) k := by
  rw [direct] at h
  split at h
  case isTrue => cases h
  case isFalse hEnd =>
    split at h
    all_goals
      simp only [List.mem_cons, List.not_mem_nil, or_false] at h
    · rcases h with rfl | rfl
      · exact ⟨List.suffix_refl _, .inr (Nat.lt_succ_self _), nofun⟩
      · exact .further (remaining_pos hEnd) (advance_suffix c.suffix_statement) nofun
    · rcases h with rfl | rfl | rfl
      · exact ⟨List.suffix_refl _, .inr (Nat.lt_succ_self _), nofun⟩
      · exact ⟨c.suffix_statement, .inr (Nat.lt_succ_self _), nofun⟩
      · exact .further (remaining_pos hEnd) (advance_suffix c.suffix_stopped) nofun

theorem leads_statement (h : k ∈ (statement c).direct) : Leads (statement c) k := by
  rw [direct] at h
  split at h
  · obtain ⟨_, -, h⟩ := Attempt.mem_onward h
    obtain ⟨_, -, h⟩ := Attempt.mem_onward h
    rw [List.mem_singleton.mp h]
    have h₂ := (suffix_expect .assign _).trans (c.suffix_expect .identifier)
    exact ⟨(List.tail_suffix _).trans h₂, .inr (Nat.lt_succ_self _), fun _ => ⟨rfl, .inl rfl⟩⟩
  · rw [List.mem_singleton.mp h]
    exact ⟨List.tail_suffix _, .inr (Nat.lt_succ_self _), fun _ => ⟨rfl, .inl rfl⟩⟩
  · rw [List.mem_singleton.mp h]
    exact ⟨List.suffix_refl _, .inr (Nat.lt_succ_self _), fun _ => ⟨rfl, .inl rfl⟩⟩

theorem leads_expression {limit : Precedence} (h : k ∈ (expression limit c).direct) :
    Leads (expression limit c) k := by
  rw [direct] at h
  rcases List.mem_cons.mp h with rfl | h
  · exact ⟨List.suffix_refl _, .inr (Nat.lt_succ_self _), fun _ => ⟨rfl, .inl rfl⟩⟩
  · obtain ⟨_, -, h⟩ := Attempt.mem_onward h
    rw [List.mem_singleton.mp h]
    exact ⟨c.suffix_operand, .inr (Nat.lt_succ_self _), fun _ => ⟨rfl, .inl rfl⟩⟩

theorem leads_conditional (hKind : c.current.kind = .ifWord) (h : k ∈ (operand c).direct) :
    Leads (operand c) k := by
  have hPos : 0 < c.remaining := remaining_pos (by rw [hKind]; decide)
  rw [direct_operand_of_ifWord hKind] at h
  obtain ⟨_, -, h⟩ := Attempt.mem_onward h
  have h₁ := advance_suffix (c.suffix_expect .leftParen)
  rcases List.mem_cons.mp h with rfl | h
  · exact .further hPos h₁ fun _ => ⟨rfl, .inl rfl⟩
  obtain ⟨_, -, h⟩ := Attempt.mem_onward h
  obtain ⟨_, -, h⟩ := Attempt.mem_onward h
  obtain ⟨_, hBrace, h⟩ := Attempt.mem_onward h
  have h₄ := (suffix_expect .leftBrace _).trans ((suffix_expect .rightParen _).trans
    ((suffix_expression .lowest _).trans h₁))
  rcases List.mem_cons.mp h with rfl | h
  · exact .further hPos h₄ fun _ => ⟨rfl, .inr (current_expect hBrace)⟩
  · obtain ⟨_, -, h⟩ := Attempt.mem_onward h
    rw [List.mem_singleton.mp h]
    exact .further hPos ((suffix_block _).trans h₄) fun _ => ⟨rfl, .inl rfl⟩

theorem leads_operand (h : k ∈ (operand c).direct) : Leads (operand c) k := by
  have hDirect := h
  rw [direct] at h
  split at h
  case h_4 hKind => exact leads_conditional hKind hDirect
  case h_5 => cases h
  all_goals
    rename_i hKind
    rw [List.mem_singleton.mp h]
    exact .further (remaining_pos (c := c) (by rw [hKind]; decide)) (List.suffix_refl _)
      fun _ => ⟨rfl, .inl rfl⟩

theorem leads_operators {limit : Precedence} {left : Expr}
    (h : k ∈ (operators limit left c).direct) : Leads (operators limit left c) k := by
  rw [direct] at h
  split at h
  case h_2 => cases h
  case h_1 op hOp =>
    split at h
    case isFalse => cases h
    case isTrue =>
      have hPos : 0 < c.remaining := Nat.zero_lt_of_lt (one_lt_remaining_of_operator hOp)
      have h₂ : c.advance.advance.tokens <:+ c.advance.tokens := List.tail_suffix _
      rcases List.mem_cons.mp h with rfl | h
      · exact .further hPos h₂ fun _ => ⟨rfl, .inl rfl⟩
      · obtain ⟨_, -, h⟩ := Attempt.mem_onward h
        rw [List.mem_singleton.mp h]
        exact .further hPos ((suffix_expression op.precedence _).trans h₂) fun _ => ⟨rfl, .inl rfl⟩

theorem leads_alternative (h : k ∈ (alternative c).direct) : Leads (alternative c) k := by
  rw [direct] at h
  split at h
  case isFalse => cases h
  case isTrue =>
    obtain ⟨_, hBrace, h⟩ := Attempt.mem_onward h
    rw [List.mem_singleton.mp h]
    exact ⟨(suffix_expect .leftBrace _).trans (List.tail_suffix _), .inr (Nat.lt_succ_self _),
      fun _ => ⟨rfl, .inr (current_expect hBrace)⟩⟩

theorem leads_block (h : k ∈ (block c).direct) : Leads (block c) k := by
  rw [List.mem_singleton.mp h]
  exact ⟨List.tail_suffix _, .inr (Nat.lt_succ_self _), nofun⟩

theorem leads_blockRest (h : k ∈ (blockRest c).direct) : Leads (blockRest c) k := by
  rw [direct] at h
  split at h
  case isTrue => cases h
  case isFalse hNext =>
    have hPos : 0 < c.remaining := remaining_pos fun hEnd => hNext (.inr hEnd)
    have hStatement : Leads (blockRest c) (statement c) :=
      ⟨List.suffix_refl _, .inr (Nat.lt_succ_self _), nofun⟩
    have hRecover : Leads (blockRest c) (recover c.statement.cursor) :=
      ⟨c.suffix_statement, .inr (Nat.lt_succ_self _), nofun⟩
    split at h
    case isTrue =>
      simp only [List.mem_cons, List.not_mem_nil, or_false] at h
      rcases h with rfl | rfl
      · exact hStatement
      · exact .further hPos (advance_suffix c.suffix_statement) nofun
    case isFalse =>
      split at h
      all_goals
        simp only [List.mem_cons, List.not_mem_nil, or_false] at h
      · rcases h with rfl | rfl
        · exact hStatement
        · exact hRecover
      · rcases h with rfl | rfl | rfl
        · exact hStatement
        · exact hRecover
        · exact .further hPos (advance_suffix c.suffix_stopped) nofun

theorem leads_skip {nesting : Nat} (h : k ∈ (skip nesting c).direct) :
    Leads (skip nesting c) k := by
  rw [direct] at h
  split at h
  case isTrue => cases h
  case isFalse hNext =>
    rw [List.mem_singleton.mp h]
    exact .further (remaining_pos fun hEnd => hNext (.inl hEnd)) (List.suffix_refl _) nofun

/-- Every call leads to those that it makes. -/
theorem leads_of_mem_direct {k k' : Call} (h : k' ∈ k.direct) : Leads k k' := by
  cases k with
  | program c => exact leads_program h
  | statement c => exact leads_statement h
  | expression limit c => exact leads_expression h
  | operand c => exact leads_operand h
  | operators limit left c => exact leads_operators h
  | alternative c => exact leads_alternative h
  | block c => exact leads_block h
  | blockRest c => exact leads_blockRest h
  | recover c =>
    rw [List.mem_singleton.mp h]
    exact ⟨List.suffix_refl _, .inr (Nat.lt_succ_self _), nofun⟩
  | skip nesting c => exact leads_skip h

/-! ## The tree of calls -/

theorem rank_le_five (k : Call) : k.rank ≤ 5 := by
  cases k <;> simp [rank]

/-- The size of the calls gets smaller along the way. -/
theorem Leads.size_lt {k k' : Call} (h : Leads k k') : k'.size < k.size := by
  have hLe : k'.place.remaining ≤ k.place.remaining := h.suffix.length_le
  have hRank := k'.rank_le_five
  have hSmaller := h.smaller
  unfold size
  omega

theorem size_lt_of_mem_direct {k k' : Call} (h : k' ∈ k.direct) : k'.size < k.size :=
  (leads_of_mem_direct h).size_lt

/-- Calls are made to a finite depth only. -/
theorem wellFounded_direct : WellFounded fun k' k : Call => k' ∈ k.direct :=
  Subrelation.wf size_lt_of_mem_direct (measure size).wf

/-- All calls that are made in the course of a call, each before those that it makes itself. -/
def inner (k : Call) : List Call :=
  k.direct.attach.flatMap fun ⟨k', _⟩ => k' :: inner k'
termination_by k.size
decreasing_by exact size_lt_of_mem_direct ‹_›

/-- The calls in the course of a call are those it makes and, behind each, those in its course. -/
theorem inner_eq (k : Call) : k.inner = k.direct.flatMap fun k' => k' :: k'.inner := by
  rw [inner]
  simp

/-- What holds of a call if it holds of those that it makes holds of all calls. -/
theorem tree_induction {P : Call → Prop} (h : ∀ k, (∀ k' ∈ k.direct, P k') → P k) (k : Call) :
    P k :=
  wellFounded_direct.induction k h

/-- What a call hands on to those that it makes holds of all inner ones. -/
theorem forall_mem_inner {P : Call → Prop} (hStep : ∀ k, P k → ∀ k' ∈ k.direct, P k') {k : Call}
    (h : P k) : ∀ k' ∈ k.inner, P k' := by
  induction k using tree_induction with
  | h k ih =>
    intro k' hInner
    rw [inner_eq, List.mem_flatMap] at hInner
    obtain ⟨child, hDirect, hInner⟩ := hInner
    have hChild := hStep k h child hDirect
    rcases List.mem_cons.mp hInner with rfl | hInner
    · exact hChild
    · exact ih child hDirect hChild k' hInner

end Call

end MonkeyLang
