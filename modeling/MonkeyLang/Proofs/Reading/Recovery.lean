import MonkeyLang.Proofs.Invariant
import MonkeyLang.Proofs.Reading.Skipping

/-!
# Where recovery stops

When a statement is given up, tokens are skipped up to where the next one may begin. What has
been read and skipped by then is an initial part of the tokens.

* `Cursor.stopped` : the cursor on which recovery from a statement stops.
* `Cursor.stopped_cases` : it stands on a semicolon, or nothing follows in the block or program.
* `Cursor.blockRest_of_ownBrace`, `Cursor.blockRest_of_onward`, `Cursor.program_of_onward` : what
  is read from there.
-/

namespace MonkeyLang

open Cursor

namespace Cursor

theorem suffix_advance {c : Cursor} {tokens : List Token} (h : c.tokens <:+ tokens) :
    c.advance.tokens <:+ tokens :=
  (List.tail_suffix _).trans h

/-- What is left after skipping is the end of what was left before. -/
theorem suffix_skipStatement (nesting : Nat) (c : Cursor) :
    (skipStatement nesting c).cursor.tokens <:+ c.tokens := by
  fun_induction skipStatement nesting c with
  | case5 nesting c hEnd hOwn hSemicolon nesting' hStop ih =>
    exact ih.trans (suffix_advance (List.suffix_refl _))
  | _ => exact List.suffix_refl _

/-- Skipping ends where a statement does. -/
theorem stopped_skipStatement (nesting : Nat) {c : Cursor}
    (hPlain : ∀ t ∈ c.tokens, t.kind ≠ .endOfInput) :
    (skipStatement nesting c).value = true ∨
      (skipStatement nesting c).cursor.current.kind = .semicolon ∨
      (skipStatement nesting c).cursor.tokens.tail = [] ∨
      (0 < c.depth ∧ (skipStatement nesting c).cursor.upcoming.kind = .rightBrace) := by
  cases hValue : (skipStatement nesting c).value with
  | true => exact .inl rfl
  | false =>
    obtain ⟨skipped, hSkips⟩ := skips_skipStatement hValue
    have hLeft : ∀ t ∈ (skipStatement nesting c).cursor.tokens, t.kind ≠ .endOfInput :=
      fun t ht => hPlain t ((suffix_skipStatement nesting c).subset ht)
    refine .inr ?_
    cases hSkips.boundary with
    | finished hEnd =>
      refine .inr (.inl ?_)
      rw [tokens_eq_nil hLeft hEnd]
      rfl
    | semicolon hSemicolon _ => exact .inl hSemicolon
    | last hLast =>
      refine .inr (.inl (tokens_eq_nil (c := (skipStatement nesting c).cursor.advance) ?_ hLast))
      exact fun t ht => hLeft t (List.mem_of_mem_tail ht)
    | ownBrace hDepth hNext _ =>
      rw [depth_skipStatement] at hDepth
      exact .inr (.inr ⟨hDepth, hNext⟩)

end Cursor

/-- Reading leaves a final part of the tokens. -/
theorem invariant_suffix : Invariant fun {c _} s => s.cursor.tokens <:+ c.tokens :=
  .of_movements (R := fun c c' => c'.tokens <:+ c.tokens) (fun _ => List.suffix_refl _)
    (fun h h' => h'.trans h) (fun _ => List.tail_suffix _) (fun _ _ => List.suffix_refl _)
    (fun h => h.trans (List.tail_suffix _)) (suffix_skipStatement 0)

namespace Cursor

variable {c : Cursor}

/-- Where recovery from a statement stops. -/
def stopped (c : Cursor) : Cursor :=
  (statement c).cursor.recover.cursor

theorem remaining_stopped_le (c : Cursor) : c.stopped.remaining ≤ c.remaining :=
  Nat.le_trans (statement c).cursor.recover.remaining_le (statement c).remaining_le

theorem depth_stopped (c : Cursor) : c.stopped.depth = c.depth :=
  (depth_recover _).trans (depth_statement c)

/-- Recovery from a statement leaves a final part of the tokens. -/
theorem exists_eq_append_stopped (c : Cursor) :
    ∃ passed, c.tokens = passed ++ c.stopped.tokens := by
  have hStatement : (statement c).cursor.tokens <:+ c.tokens := invariant_suffix.reading.1 c
  obtain ⟨passed, hPassed⟩ := (suffix_skipStatement 0 (statement c).cursor).trans hStatement
  exact ⟨passed, hPassed.symm⟩

/-- Unless recovery stops on a closing brace, it stops on a semicolon, or nothing follows in the
block or program. -/
theorem stopped_cases (hPlain : ∀ t ∈ c.tokens, t.kind ≠ .endOfInput)
    (hRecover : (statement c).cursor.recover.value = false) :
    c.stopped.current.kind = .semicolon ∨ c.stopped.tokens.tail = [] ∨
      (0 < c.depth ∧ c.stopped.upcoming.kind = .rightBrace) := by
  have hStatement : (statement c).cursor.tokens <:+ c.tokens := invariant_suffix.reading.1 c
  have hStopped := stopped_skipStatement 0 fun t ht => hPlain t (hStatement.subset ht)
  rw [depth_statement] at hStopped
  exact hStopped.resolve_left (ne_true_of_eq_false hRecover)

/-- A block that is closed where a statement breaks off. -/
theorem blockRest_of_ownBrace (hBrace : c.current.kind ≠ .rightBrace)
    (hEnd : c.current.kind ≠ .endOfInput) (hNone : (statement c).value = none)
    (hRecover : (statement c).cursor.recover.value = true) :
    (blockRest c).value = some [] ∧ (blockRest c).cursor = c.stopped.closeBlock ∧
      (blockRest c).diagnostics = (statement c).diagnostics := by
  rw [blockRest_of_none hBrace hEnd hNone]
  simp [hRecover, stopped]

/-- A block that goes on behind the statement that has been given up. -/
theorem blockRest_of_onward (hBrace : c.current.kind ≠ .rightBrace)
    (hEnd : c.current.kind ≠ .endOfInput) (hNone : (statement c).value = none)
    (hRecover : (statement c).cursor.recover.value = false) :
    (blockRest c).value = (blockRest c.stopped.advance).value ∧
      (blockRest c).cursor = (blockRest c.stopped.advance).cursor ∧
      (blockRest c).diagnostics =
        (statement c).diagnostics ++ (blockRest c.stopped.advance).diagnostics := by
  rw [blockRest_of_none hBrace hEnd hNone]
  simp [hRecover, stopped]

/-- A program that goes on behind the statement that has been given up. -/
theorem program_of_onward (hEnd : c.current.kind ≠ .endOfInput)
    (hNone : (statement c).value = none) :
    (program c).value = (program c.stopped.advance).value ∧
      (program c).diagnostics =
        (statement c).diagnostics ++ (program c.stopped.advance).diagnostics := by
  rw [program_of_none hEnd hNone]
  simp [stopped]

end Cursor

end MonkeyLang
