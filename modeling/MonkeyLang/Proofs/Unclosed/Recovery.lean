import MonkeyLang.Proofs.Braces
import MonkeyLang.Proofs.Embedding

/-!
# Braces that stay open

A list of tokens may leave some of its opening braces without a partner. `Leaves` counts these.
A cursor in such a list is in step with its braces if the blocks it has open, and the braces
that recovery has opened since, are exactly the braces that are open before the tokens it has
left. Then every closing brace it meets in a block is the one that closes this block.

* `Unclosed.Before`, `Unclosed.Behind`, `Unclosed.Stuck` : a cursor in step, before a token, on
  the last token of what has been read, and where something malformed has been found.
* `Unclosed.Ended` : a cursor at the end of input, where blocks have been reported as unclosed.
* `Unclosed.recovered` : recovery keeps in step.
-/

namespace MonkeyLang

open Cursor

/-! ## Counting braces -/

/-- Behind `depth` open braces the list closes no others than these and those it opens, and
leaves `unclosed` braces open. -/
structure Leaves (unclosed depth : Nat) (ts : List Token) : Prop where
  guarded : ∀ part, part <+: ts → closing part ≤ depth + opening part
  total : depth + opening ts = unclosed + closing ts

namespace Leaves

variable {unclosed depth : Nat} {t : Token} {ts : List Token}

theorem of_nil (h : Leaves unclosed depth []) : depth = unclosed :=
  h.total

theorem depth_pos (h : Leaves unclosed depth (t :: ts)) (hKind : t.kind = .rightBrace) :
    0 < depth := by
  have hLe := h.guarded [t] (List.prefix_cons_iff.mpr (.inr ⟨[], rfl, List.nil_prefix⟩))
  simp [opening, closing, hKind] at hLe
  exact hLe

theorem tail (h : Leaves unclosed depth (t :: ts)) :
    Leaves unclosed (nestingAfter depth t.kind) ts where
  guarded part hPart := by
    have hPace := nestingAfter_add_closing part h.depth_pos
    have hLe := h.guarded (t :: part) (List.prefix_cons_iff.mpr (.inr ⟨part, rfl, hPart⟩))
    omega
  total := by
    have hPace := nestingAfter_add_closing ts h.depth_pos
    have hTotal := h.total
    omega

/-- Where no prefix closes more braces than it opens, the opening braces in excess stay open. -/
theorem of_prefixes (h : ∀ part, part <+: ts → closing part ≤ opening part) :
    Leaves (opening ts - closing ts) 0 ts where
  guarded part hPart := by
    rw [Nat.zero_add]
    exact h part hPart
  total := by
    have hLe := h ts List.prefix_rfl
    omega

end Leaves

/-! ## Cursors in step with their braces -/

namespace Unclosed

/-- The cursor stands before a token, where `nesting` braces have been opened besides the open
blocks. -/
structure Before (unclosed nesting : Nat) (c : Cursor) : Prop where
  plain : ∀ t ∈ c.tokens, t.kind ≠ .endOfInput
  leaves : Leaves unclosed (c.depth + nesting) c.tokens
  fresh : c.Fresh

/-- The cursor stands on the last token of what has been read. If that is a closing brace, its
block has been closed. -/
structure Behind (unclosed : Nat) (c : Cursor) : Prop where
  plain : ∀ t ∈ c.tokens, t.kind ≠ .endOfInput
  leaves : Leaves unclosed c.depth c.tokens.tail
  not_leftBrace : c.current.kind ≠ .leftBrace
  closed : c.current.kind = .rightBrace → c.JustClosed
  settled : c.Settled

/-- The cursor stands where a malformed construct has been found, or on the way from there to the
end of the statement. -/
def Stuck (unclosed nesting : Nat) (c : Cursor) : Prop :=
  Before unclosed nesting c ∨ nesting = 0 ∧ Behind unclosed c

/-- The input has ended. The blocks that are still open and the `reported` ones are some of those
that are never closed. -/
structure Ended (unclosed reported : Nat) (c : Cursor) : Prop where
  tokens : c.tokens = []
  depth : reported + c.depth ≤ unclosed

/-- A malformed construct has been found, with or without blocks that are reported as unclosed. -/
def Lost (unclosed reported : Nat) (c : Cursor) : Prop :=
  (reported = 0 ∧ Stuck unclosed 0 c) ∨ Ended unclosed reported c

/-- The next statement may begin here. -/
def Next (unclosed reported : Nat) (c : Cursor) : Prop :=
  (reported = 0 ∧ Before unclosed 0 c) ∨ Ended unclosed reported c

variable {unclosed nesting reported : Nat} {c : Cursor}

theorem Ended.current_kind (h : Ended unclosed reported c) : c.current.kind = .endOfInput := by
  rw [current, h.tokens]
  rfl

theorem Ended.advance (h : Ended unclosed reported c) : Ended unclosed reported c.advance where
  tokens := by
    show c.tokens.tail = []
    rw [h.tokens]
    rfl
  depth := h.depth

/-! ### Moving on -/

theorem Before.leaves_cons (h : Before unclosed nesting c) (hEnd : c.current.kind ≠ .endOfInput) :
    Leaves unclosed (c.depth + nesting) (c.current :: c.tokens.tail) :=
  tokens_eq_cons hEnd ▸ h.leaves

theorem plain_tail (h : ∀ t ∈ c.tokens, t.kind ≠ .endOfInput) :
    ∀ t ∈ c.advance.tokens, t.kind ≠ .endOfInput :=
  fun t ht => h t (List.mem_of_mem_tail ht)

/-- Where the input ends the braces that are open stay open. -/
theorem Before.ended (h : Before unclosed nesting c) (hEnd : c.current.kind = .endOfInput) :
    Ended unclosed 0 c where
  tokens := tokens_eq_nil h.plain hEnd
  depth := by
    have hLeaves := h.leaves
    rw [tokens_eq_nil h.plain hEnd] at hLeaves
    have hDepth := hLeaves.of_nil
    omega

theorem Behind.advance (h : Behind unclosed c) : Before unclosed 0 c.advance where
  plain := plain_tail h.plain
  leaves := h.leaves
  fresh := h.settled.advance

/-- A token that is no brace has been read. -/
theorem Before.behind_of_kind {kind : Token.Kind} (h : Before unclosed 0 c)
    (hKind : c.current.kind = kind)
    (hPlain : kind ≠ .endOfInput ∧ kind ≠ .leftBrace ∧ kind ≠ .rightBrace := by decide) :
    Behind unclosed c := by
  subst hKind
  obtain ⟨hEnd, hOpen, hClose⟩ := hPlain
  have hTail := (h.leaves_cons hEnd).tail
  rw [nestingAfter_of_ne _ hOpen hClose] at hTail
  exact ⟨h.plain, hTail, hOpen, fun hKind => absurd hKind hClose, h.fresh.settled⟩

theorem Before.enterBlock (h : Before unclosed 0 c) (hKind : c.current.kind = .leftBrace) :
    Before unclosed 0 c.enterBlock where
  plain := plain_tail h.plain
  leaves := by
    have hTail := (h.leaves_cons (by rw [hKind]; decide)).tail
    rw [hKind] at hTail
    exact hTail
  fresh := h.fresh.settled.advance

theorem Before.closeBlock (h : Before unclosed 0 c) (hKind : c.current.kind = .rightBrace) :
    Behind unclosed c.closeBlock.leaveBlock where
  plain := h.plain
  leaves := by
    have hTail := (h.leaves_cons (by rw [hKind]; decide)).tail
    rw [hKind] at hTail
    exact hTail
  not_leftBrace := by
    show c.current.kind ≠ .leftBrace
    rw [hKind]
    decide
  closed := fun _ => rfl
  settled := settled_closeBlock

/-! ### Recovery -/

/-- Skipping a token that neither closes the enclosing block nor ends the input. -/
theorem Stuck.advance (h : Stuck unclosed nesting c) (hEnd : c.current.kind ≠ .endOfInput)
    (hOwn : ¬ (nesting = 0 ∧ c.atOwnBrace = true)) :
    Before unclosed (nestingAfter nesting c.current.kind) c.advance := by
  rcases h with h | ⟨rfl, h⟩
  · refine ⟨plain_tail h.plain, ?_, h.fresh.settled.advance⟩
    have hTail := (h.leaves_cons hEnd).tail
    rwa [nestingAfter_add] at hTail
    intro hBrace
    by_cases hZero : nesting = 0 ∧ 0 < c.depth
    · refine absurd ⟨hZero.1, atOwnBrace_iff.mpr ⟨hBrace, hZero.2, ?_⟩⟩ hOwn
      exact h.fresh.not_justClosed
    · omega
  · have hNesting : nestingAfter 0 c.current.kind = 0 := by
      by_cases hClose : c.current.kind = .rightBrace
      · rw [hClose]
        rfl
      · exact nestingAfter_of_ne 0 h.not_leftBrace hClose
    rw [hNesting]
    exact h.advance

/-- Skipping stays in step: it stops on the brace that closes the enclosing block, or before the
next statement. -/
theorem skipped (nesting : Nat) (c : Cursor) (h : Stuck unclosed nesting c) :
    ((skipStatement nesting c).value = true →
      Before unclosed 0 (skipStatement nesting c).cursor) ∧
    ((skipStatement nesting c).value = false →
      Next unclosed 0 (skipStatement nesting c).cursor.advance) := by
  fun_induction skipStatement nesting c with
  | case1 nesting c hEnd =>
    refine ⟨fun hTrue => absurd hTrue Bool.false_ne_true, fun _ => .inr (Ended.advance ?_)⟩
    rcases h with h | ⟨-, h⟩
    · exact h.ended hEnd
    · refine ⟨tokens_eq_nil h.plain hEnd, ?_⟩
      have hLeaves := h.leaves
      rw [tokens_eq_nil h.plain hEnd] at hLeaves
      exact Nat.le_of_eq ((Nat.zero_add _).trans hLeaves.of_nil)
  | case2 nesting c hEnd hOwn =>
    obtain ⟨rfl, hOwn⟩ := hOwn
    refine ⟨fun _ => h.resolve_right fun hBehind => ?_,
      fun hFalse => absurd hFalse.symm Bool.false_ne_true⟩
    exact (atOwnBrace_iff.mp hOwn).2.2 (hBehind.2.closed (current_of_atOwnBrace hOwn))
  | case3 nesting c hEnd hOwn hSemicolon =>
    have hNext := h.advance hEnd hOwn
    obtain ⟨rfl, hSemicolon⟩ := hSemicolon
    rw [hSemicolon] at hNext
    exact ⟨fun hTrue => absurd hTrue Bool.false_ne_true, fun _ => .inl ⟨rfl, hNext⟩⟩
  | case4 nesting c hEnd hOwn hSemicolon nesting' hStop =>
    have hNext := h.advance hEnd hOwn
    refine ⟨fun hTrue => absurd hTrue Bool.false_ne_true, fun _ => ?_⟩
    rcases hStop with hStop | ⟨hZero, -⟩
    · exact .inr (hNext.ended hStop)
    · change nestingAfter nesting c.current.kind = 0 at hZero
      rw [hZero] at hNext
      exact .inl ⟨rfl, hNext⟩
  | case5 nesting c hEnd hOwn hSemicolon nesting' hStop ih => exact ih (.inl (h.advance hEnd hOwn))

/-- Recovery stays in step, and reports no block as unclosed. -/
theorem recovered (h : Lost unclosed reported c) :
    (c.recover.value = true → reported = 0 ∧ Before unclosed 0 c.recover.cursor) ∧
    (c.recover.value = false → Next unclosed reported c.recover.cursor.advance) := by
  rcases h with ⟨rfl, h⟩ | h
  · obtain ⟨hClosed, hNext⟩ := skipped 0 c h
    exact ⟨fun hValue => ⟨rfl, hClosed hValue⟩, hNext⟩
  · have hStay : skipStatement 0 c = .stay false := skipStatement_of_end h.current_kind
    rw [recover, hStay]
    exact ⟨nofun, fun _ => .inr h.advance⟩

end Unclosed

end MonkeyLang
