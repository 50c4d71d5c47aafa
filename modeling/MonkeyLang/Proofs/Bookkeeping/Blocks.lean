import MonkeyLang.Proofs.Bookkeeping.Places
import MonkeyLang.Proofs.Unclosed

/-!
# Blocks end on their own brace

In any text, balanced or not, a block is read if and only if its opening brace has a partner. It
ends there, and notes this brace as the one that closed a block last.

* `Cursor.value_block_eq_none` : without a partner the block fails.
* `Cursor.exists_body_of_block` : with one it holds what its body is parsed to.
* `Cursor.justClosed_block` : the brace that is noted.
-/

namespace MonkeyLang

open Cursor

namespace Cursor

variable {c : Cursor} {ss : List Statement}

/-- A block whose opening brace has no partner is never closed. -/
theorem value_block_eq_none (hPlain : ∀ t ∈ c.tokens, t.kind ≠ .endOfInput) (hSettled : c.Settled)
    (hParts : ∀ part, part <+: c.tokens.tail → closing part ≤ opening part) :
    (block c).value = none := by
  rw [block]
  cases hValue : (blockRest c.enterBlock).value with
  | none => exact hValue
  | some ss =>
    exfalso
    -- The braces that stay open are those of the blocks and those that the tokens leave open.
    let unclosed := c.depth + 1 + (opening c.tokens.tail - closing c.tokens.tail)
    have hAll := hParts _ List.prefix_rfl
    have hBefore : Unclosed.Before unclosed 0 c.enterBlock :=
      { plain := Unclosed.plain_tail hPlain
        leaves :=
          { guarded := fun part hPart => Nat.le_trans (hParts part hPart) (Nat.le_add_left _ _)
            total := by
              change c.depth + 1 + 0 + opening c.tokens.tail =
                c.depth + 1 + (opening c.tokens.tail - closing c.tokens.tail) +
                  closing c.tokens.tail
              omega }
        fresh := hSettled.advance }
    obtain ⟨-, -, -, -, -, hBlocks, hRests⟩ := (Unclosed.tallies_cases unclosed).all
    have hBehind := ((hRests c.enterBlock hBefore (Nat.succ_pos _)).found ss hValue).2
    -- So the tokens passed have closed one brace more than they have opened.
    have hTotal := hBehind.leaves.total
    have hDepth : (blockRest c.enterBlock).cursor.leaveBlock.depth = c.depth := by
      have hBlock := invariant_depth.reading.2.2.2.2.2.1 c
      rwa [block] at hBlock
    obtain ⟨passed, hPassed⟩ : (blockRest c.enterBlock).cursor.leaveBlock.tokens.tail <:+
        c.tokens.tail := by
      have hBlock := advance_suffix c.suffix_block
      rwa [block] at hBlock
    have hGuard := hParts passed ⟨_, hPassed⟩
    have hOpening := congrArg opening hPassed
    have hClosing := congrArg closing hPassed
    rw [opening_append] at hOpening
    rw [closing_append] at hClosing
    rw [hDepth] at hTotal
    omega

/-- A block that is read ends on the partner of its opening brace, and holds what its body is
parsed to. -/
theorem exists_body_of_block (hPlain : ∀ t ∈ c.tokens, t.kind ≠ .endOfInput)
    (hSettled : c.Settled) (hOpen : c.current.kind = .leftBrace)
    (hValue : (block c).value = some ss) :
    ∃ body closed rest, c.tokens.tail = body ++ closed :: rest ∧
      (block c).cursor.tokens = closed :: rest ∧ closed.kind = .rightBrace ∧ Balanced body ∧
      ss = (parse body).value := by
  rcases exists_closing_or_guarded 0 c.tokens.tail with
    ⟨body, closed, rest, hTail, hClosed, hBody⟩ | hParts
  · have hBalanced := closes_zero_iff_balanced.mp hBody
    have hTokens : c.tokens = c.current :: (body ++ closed :: rest) :=
      hTail ▸ tokens_eq_cons (by rw [hOpen]; decide)
    have hPlainBody : ∀ t ∈ body, t.kind ≠ .endOfInput := fun t ht =>
      hPlain t (List.mem_of_mem_tail (hTail ▸ List.mem_append_left _ ht))
    obtain ⟨c', hBlock, hRest, -⟩ :=
      block_succeeds hPlainBody hBalanced hClosed hTokens hSettled
    refine ⟨body, closed, rest, hTail, hBlock.cursor ▸ hRest, hClosed, hBalanced, ?_⟩
    exact Option.some.inj (hValue.symm.trans hBlock.value)
  · have hNone := value_block_eq_none hPlain hSettled fun part hPart => by
      have hLe := hParts part hPart
      rwa [Nat.zero_add] at hLe
    rw [hNone] at hValue
    cases hValue

/-- A block that is read ends on a closing brace. -/
theorem current_block (hPlain : ∀ t ∈ c.tokens, t.kind ≠ .endOfInput) (hSettled : c.Settled)
    (hOpen : c.current.kind = .leftBrace) (h : (block c).value.isSome = true) :
    (block c).cursor.current.kind = .rightBrace := by
  obtain ⟨ss, hValue⟩ := Option.isSome_iff_exists.mp h
  obtain ⟨body, closed, rest, -, hTokens, hClosed, -⟩ :=
    exists_body_of_block hPlain hSettled hOpen hValue
  rw [current_eq hTokens]
  exact hClosed

/-- The brace on which the rest of a block ends is noted. -/
theorem justClosed_blockRest (c : Cursor) (h : (blockRest c).value.isSome = true) :
    (blockRest c).cursor.JustClosed := by
  by_cases hBrace : c.current.kind = .rightBrace
  · rw [blockRest_of_rightBrace hBrace]
    rfl
  by_cases hEnd : c.current.kind = .endOfInput
  · rw [blockRest_of_end hEnd] at h
    cases h
  have hPos := remaining_pos hEnd
  cases hValue : (statement c).value with
  | some s =>
    rw [blockRest_of_some hBrace hEnd hValue] at h ⊢
    have hLe := (statement c).remaining_le
    exact justClosed_blockRest _ (Option.isSome_map.symm.trans h)
  | none =>
    cases hRecover : (statement c).cursor.recover.value with
    | true =>
      rw [(blockRest_of_ownBrace hBrace hEnd hValue hRecover).2.1]
      rfl
    | false =>
      obtain ⟨hSame, hCursor, -⟩ := blockRest_of_onward hBrace hEnd hValue hRecover
      have hLe := c.remaining_stopped_le
      rw [hCursor]
      exact justClosed_blockRest _ (hSame ▸ h)
termination_by c.remaining
decreasing_by
  all_goals
    rw [remaining_advance]
    omega

/-- The brace on which a block ends is noted. -/
theorem justClosed_block (h : (block c).value.isSome = true) : (block c).cursor.JustClosed := by
  rw [block] at h ⊢
  exact justClosed_blockRest c.enterBlock h

end Cursor

end MonkeyLang
