import MonkeyLang.Cursor.Step

/-!
# Recovery from a malformed statement

After a malformed statement the rest of it is skipped, so that what follows is read as if
nothing had happened. Skipping stops on the semicolon that ends the statement, and before the
brace that ends the block the statement stands in; braces opened on the way are skipped
together with all they enclose. At the end of input there is nothing left to skip.

* `Cursor.recover` returns whether it stopped on the closing brace of the enclosing block
  itself, which happens when the statement broke off there.
* `Attempt.orRecover` reads on after a statement, well formed or not.
-/

namespace MonkeyLang

namespace Cursor

/-- The number of braces that are open after passing a token. -/
def nestingAfter (nesting : Nat) : Token.Kind → Nat
  | .leftBrace => nesting + 1
  | .rightBrace => nesting - 1
  | _ => nesting

theorem nestingAfter_of_ne {kind : Token.Kind} (nesting : Nat) (hOpen : kind ≠ .leftBrace)
    (hClose : kind ≠ .rightBrace) : nestingAfter nesting kind = nesting := by
  unfold nestingAfter
  split <;> simp_all

/-- Braces that were open before make no difference unless they are closed. -/
theorem nestingAfter_add {kind : Token.Kind} {depth nesting : Nat}
    (h : kind = .rightBrace → 0 < nesting ∨ depth = 0) :
    nestingAfter (depth + nesting) kind = depth + nestingAfter nesting kind := by
  unfold nestingAfter
  split
  · omega
  · have := h rfl
    omega
  · rfl

/-- Skips to the end of a statement, where `nesting` braces have been opened on the way. -/
def skipStatement (nesting : Nat) (c : Cursor) : Step c Bool :=
  if _hEnd : c.current.kind = .endOfInput then
    .stay false
  else if nesting = 0 ∧ c.atOwnBrace then
    .stay true
  else if nesting = 0 ∧ c.current.kind = .semicolon then
    .stay false
  else
    let nesting' := nestingAfter nesting c.current.kind
    if c.upcoming.kind = .endOfInput ∨
        (nesting' = 0 ∧ 0 < c.depth ∧ c.upcoming.kind = .rightBrace) then
      .stay false
    else
      .advancing (skipStatement nesting' c.advance)
termination_by c.remaining
decreasing_by
  have := remaining_pos _hEnd
  simp only [remaining_advance]
  omega

/-! ### Skipping by the token that is skipped -/

section equations

variable {nesting : Nat} {c : Cursor}

theorem skipStatement_of_end (h : c.current.kind = .endOfInput) :
    skipStatement nesting c = .stay false := by
  rw [skipStatement, dif_pos h]

/-- The brace that closes the enclosing block is left to that block. -/
theorem skipStatement_of_atOwnBrace (h : c.atOwnBrace = true) :
    skipStatement 0 c = .stay true := by
  have hEnd : c.current.kind ≠ .endOfInput := by
    rw [current_of_atOwnBrace h]
    decide
  rw [skipStatement, dif_neg hEnd, if_pos ⟨rfl, h⟩]

theorem skipStatement_of_semicolon (h : c.current.kind = .semicolon) :
    skipStatement 0 c = .stay false := by
  have hEnd : c.current.kind ≠ .endOfInput := by
    rw [h]
    decide
  have hOwn : c.atOwnBrace ≠ true := by
    intro hOwn
    rw [current_of_atOwnBrace hOwn] at h
    cases h
  rw [skipStatement, dif_neg hEnd, if_neg fun h => hOwn h.2, if_pos ⟨rfl, h⟩]

variable (hEnd : c.current.kind ≠ .endOfInput) (hOwn : ¬ (nesting = 0 ∧ c.atOwnBrace = true))
  (hSemicolon : ¬ (nesting = 0 ∧ c.current.kind = .semicolon))

include hEnd hOwn hSemicolon

/-- Skipping stops before the end of input and before the brace of the enclosing block. -/
theorem skipStatement_of_stop
    (hStop : c.upcoming.kind = .endOfInput ∨
      (nestingAfter nesting c.current.kind = 0 ∧ 0 < c.depth ∧ c.upcoming.kind = .rightBrace)) :
    skipStatement nesting c = .stay false := by
  rw [skipStatement, dif_neg hEnd, if_neg hOwn, if_neg hSemicolon, if_pos hStop]

theorem skipStatement_of_not_stop
    (hStop : ¬ (c.upcoming.kind = .endOfInput ∨
      (nestingAfter nesting c.current.kind = 0 ∧ 0 < c.depth ∧
        c.upcoming.kind = .rightBrace))) :
    skipStatement nesting c =
      .advancing (skipStatement (nestingAfter nesting c.current.kind) c.advance) := by
  rw [skipStatement, dif_neg hEnd, if_neg hOwn, if_neg hSemicolon, if_neg hStop]

end equations

/-- Nothing is reported about what is skipped. -/
theorem diagnostics_skipStatement (nesting : Nat) (c : Cursor) :
    (skipStatement nesting c).diagnostics = [] := by
  fun_induction skipStatement nesting c with
  | case5 nesting c hEnd hOwn hSemicolon nesting' hStop ih => exact ih
  | _ => rfl

/-- Skipping neither enters nor leaves a block. -/
theorem depth_skipStatement (nesting : Nat) (c : Cursor) :
    (skipStatement nesting c).cursor.depth = c.depth := by
  fun_induction skipStatement nesting c with
  | case5 nesting c hEnd hOwn hSemicolon nesting' hStop ih => exact ih
  | _ => rfl

/-- Skipping reports a closing brace only where it stands on one. -/
theorem atOwnBrace_of_value_skipStatement {nesting : Nat} {c : Cursor}
    (h : (skipStatement nesting c).value = true) :
    (skipStatement nesting c).cursor.atOwnBrace = true := by
  fun_induction skipStatement nesting c with
  | case2 nesting c hEnd hOwn => exact hOwn.2
  | case5 nesting c hEnd hOwn hSemicolon nesting' hStop ih => exact ih h
  | _ => cases h

/-- Gives up the statement that broke off here and skips the rest of it. The value says whether
the closing brace of the enclosing block has been reached. -/
def recover (c : Cursor) : Step c Bool :=
  { skipStatement 0 c with abandoned := [c] }

@[simp] theorem diagnostics_recover (c : Cursor) : c.recover.diagnostics = [] :=
  diagnostics_skipStatement 0 c

@[simp] theorem abandoned_recover (c : Cursor) : c.recover.abandoned = [c] := rfl

@[simp] theorem depth_recover (c : Cursor) : c.recover.cursor.depth = c.depth :=
  depth_skipStatement 0 c

/-- Recovery tells that the block ends only on the brace of that block. -/
theorem atOwnBrace_of_value_recover {c : Cursor} (h : c.recover.value = true) :
    c.recover.cursor.atOwnBrace = true :=
  atOwnBrace_of_value_skipStatement h

/-- Outside all blocks recovery never stops before a closing brace. -/
theorem value_recover_of_outside {c : Cursor} (h : c.depth = 0) : c.recover.value = false := by
  rw [Bool.eq_false_iff]
  intro hValue
  have hInside := depth_pos_of_atOwnBrace (atOwnBrace_of_value_recover hValue)
  rw [depth_recover, h] at hInside
  exact Nat.lt_irrefl 0 hInside

end Cursor

/-- Goes on after a statement: with the statement if it is well formed, and with what recovery
found otherwise. -/
def Attempt.orRecover {c : Cursor} {α β : Type} (s : Attempt c α)
    (found : α → (c' : Cursor) → c'.remaining ≤ c.remaining → Step c' β)
    (lost : Bool → (c' : Cursor) → c'.remaining ≤ c.remaining → Step c' β) : Step c β :=
  Step.bind s fun value c' h =>
    match value with
    | some a => found a c' h
    | none => c'.recover.bind fun atBrace c'' h' => lost atBrace c'' (Nat.le_trans h' h)

section orRecover

variable {c : Cursor} {α β : Type} {s : Attempt c α}

theorem Attempt.orRecover_of_some {a : α} (hs : s.value = some a)
    (found : α → (c' : Cursor) → c'.remaining ≤ c.remaining → Step c' β)
    (lost : Bool → (c' : Cursor) → c'.remaining ≤ c.remaining → Step c' β) :
    s.orRecover found lost = Step.bind s fun _ c' h => found a c' h := by
  obtain ⟨_, _, _, _, _⟩ := s
  cases hs
  rfl

theorem Attempt.orRecover_of_none (hs : s.value = none)
    (found : α → (c' : Cursor) → c'.remaining ≤ c.remaining → Step c' β)
    (lost : Bool → (c' : Cursor) → c'.remaining ≤ c.remaining → Step c' β) :
    s.orRecover found lost = Step.bind s fun _ c' h =>
      c'.recover.bind fun atBrace c'' h' => lost atBrace c'' (Nat.le_trans h' h) := by
  obtain ⟨_, _, _, _, _⟩ := s
  cases hs
  rfl

end orRecover

end MonkeyLang
