import MonkeyLang.Proofs.Abandoned

/-!
# Places in a text

A cursor that has come from the start of a text still agrees with it: the tokens that are left are
those from its position on, and the position of the brace that closed a block last is that of a
closing brace it has passed. Whatever a call reads, and whether it succeeds or fails, it comes back
to the depth it began at, does not move back, and keeps this agreement.

* `Cursor.Placed` : the agreement of a cursor with a text.
* `Cursor.Restored` : what a call keeps and gives back. It follows from the single movements of a
  cursor (`invariant_restored`), and so holds of every call (`Call.restored`).
* `Call.InPlace` : what is known where a call of a parse begins.
* `Call.inPlace_of_mem_direct` : it is handed on from call to call, and so holds of all calls of a
  parse (`Call.inPlace_of_mem_ofParse`).
-/

namespace MonkeyLang

open Cursor

namespace Cursor

/-- The cursor stands in the text: the tokens that are left are those from its position on, and the
block closed last was closed at or before its position, on a closing brace. -/
structure Placed (text : List Token) (c : Cursor) : Prop where
  tokens : c.tokens = text.drop c.position
  lastClose : ∀ p ∈ c.lastClose, p ≤ c.position ∧ ∃ t, text[p]? = some t ∧ t.kind = .rightBrace

variable {text : List Token} {c c' c'' : Cursor}

theorem placed_start (text : List Token) : (start text).Placed text where
  tokens := rfl
  lastClose _ hp := nomatch hp

namespace Placed

theorem advance (h : c.Placed text) : c.advance.Placed text where
  tokens := by
    change c.tokens.tail = text.drop (c.position + 1)
    rw [h.tokens, List.tail_drop]
  lastClose p hp := by
    obtain ⟨hLe, hBrace⟩ := h.lastClose p hp
    exact ⟨Nat.le_succ_of_le hLe, hBrace⟩

theorem enterBlock (h : c.Placed text) : c.enterBlock.Placed text :=
  ⟨h.advance.tokens, h.advance.lastClose⟩

theorem leaveBlock (h : c.Placed text) : c.leaveBlock.Placed text :=
  ⟨h.tokens, h.lastClose⟩

/-- Inside the text, the token at the position of the cursor is the current one. -/
theorem getElem?_position (h : c.Placed text) (hEnd : c.current.kind ≠ .endOfInput) :
    text[c.position]? = some c.current := by
  have hDrop : text.drop c.position = c.current :: c.tokens.tail :=
    h.tokens.symm.trans (tokens_eq_cons hEnd)
  rw [← List.head?_drop, hDrop]
  rfl

theorem closeBlock (h : c.Placed text) (hBrace : c.current.kind = .rightBrace) :
    c.closeBlock.Placed text where
  tokens := h.tokens
  lastClose p hp := by
    cases hp
    exact ⟨Nat.le_refl _, c.current, h.getElem?_position (by rw [hBrace]; decide), hBrace⟩

theorem settled (h : c.Placed text) : c.Settled :=
  fun p hp => (h.lastClose p hp).1

theorem plain (h : c.Placed text) (hPlain : ∀ t ∈ text, t.kind ≠ .endOfInput) :
    ∀ t ∈ c.tokens, t.kind ≠ .endOfInput := by
  intro t ht
  rw [h.tokens] at ht
  exact hPlain t (List.mem_of_mem_drop ht)

end Placed

/-! ## What a call gives back -/

/-- Coming from `c` to `c'`, the cursor is back at its depth, not further back in the text, and
still stands in it. -/
structure Restored (text : List Token) (c c' : Cursor) : Prop where
  depth : c'.depth = c.depth
  position_le : c.position ≤ c'.position
  placed : c.Placed text → c'.Placed text

namespace Restored

theorem refl (c : Cursor) : Restored text c c :=
  ⟨rfl, Nat.le_refl _, id⟩

theorem trans (h : Restored text c c') (h' : Restored text c' c'') : Restored text c c'' where
  depth := h'.depth.trans h.depth
  position_le := Nat.le_trans h.position_le h'.position_le
  placed hPlaced := h'.placed (h.placed hPlaced)

theorem advance (c : Cursor) : Restored text c c.advance :=
  ⟨rfl, Nat.le_succ _, Placed.advance⟩

theorem closeBlock (hBrace : c.current.kind = .rightBrace) : Restored text c c.closeBlock :=
  ⟨rfl, Nat.le_refl _, fun h => h.closeBlock hBrace⟩

/-- The depth in a block is one more than around it, and leaving the block takes this back. -/
theorem inBlock (h : Restored text c.enterBlock c') : Restored text c c'.leaveBlock where
  depth := by
    have hDepth : c'.depth = c.depth + 1 := h.depth
    change c'.depth - 1 = c.depth
    rw [hDepth, Nat.add_sub_cancel]
  position_le := Nat.le_of_succ_le h.position_le
  placed hPlaced := (h.placed hPlaced.enterBlock).leaveBlock

theorem skipStatement (nesting : Nat) (c : Cursor) :
    Restored text c (Cursor.skipStatement nesting c).cursor := by
  fun_induction Cursor.skipStatement nesting c with
  | case5 nesting c hEnd hOwn hSemicolon nesting' hStop ih => exact (advance c).trans ih
  | _ => exact refl _

end Restored

end Cursor

/-- Everything that is read gives back what it has changed. -/
theorem invariant_restored (text : List Token) :
    Invariant fun {c _} s => Restored text c s.cursor :=
  .of_movements (R := Restored text) .refl .trans .advance (fun _ => .closeBlock) .inBlock
    (.skipStatement 0)

namespace Cursor

variable {text : List Token} {c : Cursor}

theorem restored_statement (c : Cursor) : Restored text c c.statement.cursor :=
  (invariant_restored text).reading.1 c

theorem restored_expression (limit : Precedence) (c : Cursor) :
    Restored text c (c.expression limit).cursor :=
  (invariant_restored text).reading.2.1 limit c

theorem restored_operand (c : Cursor) : Restored text c c.operand.cursor :=
  (invariant_restored text).reading.2.2.2.1 c

theorem restored_block (c : Cursor) : Restored text c c.block.cursor :=
  (invariant_restored text).reading.2.2.2.2.2.1 c

theorem restored_expect (kind : Token.Kind) (c : Cursor) :
    Restored text c (c.expect kind).cursor :=
  (invariant_restored text).expect c kind

theorem restored_stopped (c : Cursor) : Restored text c c.stopped :=
  (restored_statement c).trans (.skipStatement 0 _)

theorem restored_program (c : Cursor) : Restored text c c.program.cursor := by
  induction c using program.induct with
  | case1 c hEnd =>
    rw [program_of_end hEnd]
    exact .refl c
  | case2 c hEnd ih =>
    cases hValue : (statement c).value with
    | some s =>
      rw [program_of_some hEnd hValue]
      exact (restored_statement c).trans
        ((Restored.advance _).trans (ih _ c.statement.remaining_le))
    | none =>
      rw [program_of_none hEnd hValue]
      exact (restored_stopped c).trans ((Restored.advance _).trans (ih _ c.remaining_stopped_le))

end Cursor

namespace Call

variable {text : List Token} {k k' : Call} {c : Cursor}

/-- Every call gives back what it has changed, whether it succeeds or fails. -/
theorem restored (text : List Token) (k : Call) : Restored text k.place k.outcome.cursor := by
  obtain ⟨hStatement, hExpression, hOperators, hOperand, hAlternative, hBlock, hRest⟩ :=
    (invariant_restored text).reading
  cases k with
  | program c => exact restored_program c
  | statement c => exact hStatement c
  | expression limit c => exact hExpression limit c
  | operand c => exact hOperand c
  | operators limit left c => exact hOperators limit left c
  | alternative c => exact hAlternative c
  | block c => exact hBlock c
  | blockRest c => exact hRest c
  | recover c => exact .skipStatement 0 c
  | skip nesting c => exact .skipStatement nesting c

/-! ## Where the calls of a parse begin -/

/-- What is known where a call begins in the course of a parse: it stands in the text, a program
goes on outside of all blocks, and a block begins on its opening brace. -/
def InPlace (text : List Token) : Call → Prop
  | program c => c.Placed text ∧ c.depth = 0
  | block c => c.Placed text ∧ c.current.kind = .leftBrace
  | statement c | expression _ c | operand c | operators _ _ c | alternative c | blockRest c
  | recover c | skip _ c => c.Placed text

theorem InPlace.placed (h : k.InPlace text) : k.place.Placed text := by
  cases k with
  | program c | block c => exact h.1
  | _ => exact h

/-- The statement that a program reads begins where the program goes on. -/
theorem eq_of_statement_mem_direct {c' : Cursor} (h : statement c' ∈ (program c).direct) :
    c' = c := by
  rw [direct] at h
  split at h
  case isTrue => cases h
  case isFalse => split at h <;> simpa using h

theorem inPlace_program (hPlaced : c.Placed text) (hDepth : c.depth = 0)
    (h : k ∈ (program c).direct) : k.InPlace text := by
  rw [direct] at h
  split at h
  case isTrue => cases h
  case isFalse =>
    split at h
    all_goals simp only [List.mem_cons, List.not_mem_nil, or_false] at h
    · have hRest : Restored text c _ := restored_statement c
      rcases h with rfl | rfl
      · exact hPlaced
      · exact ⟨(hRest.placed hPlaced).advance, hRest.depth.trans hDepth⟩
    · have hRest : Restored text c _ := restored_stopped c
      rcases h with rfl | rfl | rfl
      · exact hPlaced
      · exact (restored_statement c).placed hPlaced
      · exact ⟨(hRest.placed hPlaced).advance, hRest.depth.trans hDepth⟩

theorem inPlace_statement (hPlaced : c.Placed text) (h : k ∈ (statement c).direct) :
    k.InPlace text := by
  rw [direct] at h
  split at h
  · obtain ⟨_, -, h⟩ := Attempt.mem_onward h
    obtain ⟨_, -, h⟩ := Attempt.mem_onward h
    rw [List.mem_singleton.mp h]
    have hName := (restored_expect .identifier c).placed hPlaced
    exact ((restored_expect .assign _).placed hName).advance
  · rw [List.mem_singleton.mp h]
    exact hPlaced.advance
  · rw [List.mem_singleton.mp h]
    exact hPlaced

theorem inPlace_expression {limit : Precedence} (hPlaced : c.Placed text)
    (h : k ∈ (expression limit c).direct) : k.InPlace text := by
  rw [direct] at h
  rcases List.mem_cons.mp h with rfl | h
  · exact hPlaced
  · obtain ⟨_, -, h⟩ := Attempt.mem_onward h
    rw [List.mem_singleton.mp h]
    exact (restored_operand c).placed hPlaced

theorem inPlace_conditional (hKind : c.current.kind = .ifWord) (hPlaced : c.Placed text)
    (h : k ∈ (operand c).direct) : k.InPlace text := by
  rw [direct_operand_of_ifWord hKind] at h
  obtain ⟨_, -, h⟩ := Attempt.mem_onward h
  have hTest := ((restored_expect .leftParen c).placed hPlaced).advance
  rcases List.mem_cons.mp h with rfl | h
  · exact hTest
  obtain ⟨_, -, h⟩ := Attempt.mem_onward h
  obtain ⟨_, -, h⟩ := Attempt.mem_onward h
  obtain ⟨_, hBrace, h⟩ := Attempt.mem_onward h
  have hAfterTest := (restored_expression .lowest _).placed hTest
  have hParen := (restored_expect .rightParen _).placed hAfterTest
  have hBlock := (restored_expect .leftBrace _).placed hParen
  rcases List.mem_cons.mp h with rfl | h
  · exact ⟨hBlock, current_expect hBrace⟩
  · obtain ⟨_, -, h⟩ := Attempt.mem_onward h
    rw [List.mem_singleton.mp h]
    exact (restored_block _).placed hBlock

theorem inPlace_operand (hPlaced : c.Placed text) (h : k ∈ (operand c).direct) :
    k.InPlace text := by
  have hDirect := h
  rw [direct] at h
  split at h
  case h_4 hKind => exact inPlace_conditional hKind hPlaced hDirect
  case h_5 => cases h
  all_goals
    rw [List.mem_singleton.mp h]
    exact hPlaced.advance

theorem inPlace_operators {limit : Precedence} {left : Expr} (hPlaced : c.Placed text)
    (h : k ∈ (operators limit left c).direct) : k.InPlace text := by
  rw [direct] at h
  split at h
  case h_2 => cases h
  case h_1 =>
    split at h
    case isFalse => cases h
    case isTrue =>
      have hRight := hPlaced.advance.advance
      rcases List.mem_cons.mp h with rfl | h
      · exact hRight
      · obtain ⟨_, -, h⟩ := Attempt.mem_onward h
        rw [List.mem_singleton.mp h]
        exact (restored_expression _ _).placed hRight

theorem inPlace_alternative (hPlaced : c.Placed text) (h : k ∈ (alternative c).direct) :
    k.InPlace text := by
  rw [direct] at h
  split at h
  case isFalse => cases h
  case isTrue =>
    obtain ⟨_, hBrace, h⟩ := Attempt.mem_onward h
    rw [List.mem_singleton.mp h]
    exact ⟨(restored_expect .leftBrace _).placed hPlaced.advance, current_expect hBrace⟩

theorem inPlace_blockRest (hPlaced : c.Placed text) (h : k ∈ (blockRest c).direct) :
    k.InPlace text := by
  have hStatement : c.statement.cursor.Placed text := (restored_statement c).placed hPlaced
  rw [direct] at h
  split at h
  case isTrue => cases h
  case isFalse =>
    split at h
    case isTrue =>
      simp only [List.mem_cons, List.not_mem_nil, or_false] at h
      rcases h with rfl | rfl
      · exact hPlaced
      · exact hStatement.advance
    case isFalse =>
      split at h
      all_goals simp only [List.mem_cons, List.not_mem_nil, or_false] at h
      · rcases h with rfl | rfl
        · exact hPlaced
        · exact hStatement
      · rcases h with rfl | rfl | rfl
        · exact hPlaced
        · exact hStatement
        · exact ((restored_stopped c).placed hPlaced).advance

theorem inPlace_skip {nesting : Nat} (hPlaced : c.Placed text)
    (h : k ∈ (skip nesting c).direct) : k.InPlace text := by
  rw [direct] at h
  split at h
  case isTrue => cases h
  case isFalse =>
    rw [List.mem_singleton.mp h]
    exact hPlaced.advance

/-- A call that begins in its place makes calls that do. -/
theorem inPlace_of_mem_direct (hPlace : k.InPlace text) (h : k' ∈ k.direct) :
    k'.InPlace text := by
  cases k with
  | program c => exact inPlace_program hPlace.1 hPlace.2 h
  | statement c => exact inPlace_statement hPlace h
  | expression limit c => exact inPlace_expression hPlace h
  | operand c => exact inPlace_operand hPlace h
  | operators limit left c => exact inPlace_operators hPlace h
  | alternative c => exact inPlace_alternative hPlace h
  | block c =>
    rw [List.mem_singleton.mp h]
    exact hPlace.1.enterBlock
  | blockRest c => exact inPlace_blockRest hPlace h
  | recover c =>
    rw [List.mem_singleton.mp h]
    exact hPlace
  | skip nesting c => exact inPlace_skip hPlace h

deriving instance DecidableEq for Call

/-- All calls of a parse, beginning with that of the program. -/
def ofParse (text : List Token) : List Call :=
  program (.start text) :: (program (.start text)).inner

/-- Every call of a parse begins in its place. -/
theorem inPlace_of_mem_ofParse (h : k ∈ ofParse text) : k.InPlace text := by
  have hStart : (program (.start text)).InPlace text := ⟨placed_start text, rfl⟩
  rcases List.mem_cons.mp h with rfl | h
  · exact hStart
  · exact forall_mem_inner (fun _ hPlace _ => inPlace_of_mem_direct hPlace) hStart k h

end Call

end MonkeyLang
