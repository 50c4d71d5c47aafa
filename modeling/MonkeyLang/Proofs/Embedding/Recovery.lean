import MonkeyLang.Proofs.Embedding

/-!
# Recovery in a part of a text

* `Embedding.recovered` : recovery from the same malformed statement ends between the same two
  statements, or on the same closing brace. Only where the part ends and the brace around it
  follows, the larger text has a brace to stop on and the part does not.

Skipping counts the braces it opens, so the number of open blocks and of braces opened since
together are the depth of the part at every token that is skipped.
-/

namespace MonkeyLang

open Cursor

namespace Embedding

variable {E : Embedding} {a b : Cursor} {nesting : Nat}

/-- Where recovery has ended in the part and in the larger text, and whether it has reached the
closing brace of the enclosing block. -/
inductive Recovered (E : Embedding) (a b : Cursor) (atBrace atBraceAbove : Bool) : Prop
  | onward (hValue : atBrace = false) (hAbove : atBraceAbove = false)
      (h : E.Between a.advance b.advance)
  | ownBrace (hValue : atBrace = true) (hAbove : atBraceAbove = true) (h : E.At 0 a b)
      (hBrace : a.atOwnBrace = true)
  | outerBrace (hValue : atBrace = false) (hAbove : atBraceAbove = true) (h : E.Aligned a b)
      (hEnd : a.tokens = []) (hDepth : a.depth = 0)

theorem Stuck.aligned (h : E.Stuck nesting a b) : E.Aligned a b := by
  rcases h with h | ⟨-, h⟩
  · exact h.toAligned
  · exact h.toAligned

/-- A brace that closes a block in the larger text closes one in the part. -/
theorem At.depth_pos_iff (h : E.At 0 a b) (hKind : a.current.kind = .rightBrace) :
    0 < b.depth ↔ 0 < a.depth := by
  rw [h.depth]
  constructor
  · intro hDepth
    refine Nat.pos_of_ne_zero fun hZero => ?_
    have hEnd : a.current.kind ≠ .endOfInput := by rw [hKind]; decide
    have hInside := h.inside_cons hEnd
    rw [hZero] at hInside hDepth
    rw [E.guarded hInside hKind] at hDepth
    exact Nat.lt_irrefl _ hDepth
  · intro hDepth
    omega

/-- Skipping stops on the same closing brace. -/
theorem Stuck.ownBrace_iff (h : E.Stuck nesting a b) (hEnd : a.current.kind ≠ .endOfInput) :
    (nesting = 0 ∧ b.atOwnBrace = true) ↔ (nesting = 0 ∧ a.atOwnBrace = true) := by
  refine and_congr_right fun hNesting => ?_
  subst hNesting
  rw [atOwnBrace_iff, atOwnBrace_iff, h.aligned.current_eq hEnd]
  refine and_congr_right fun hKind => ?_
  rcases h with h | ⟨-, h⟩
  · simp only [h.depth_pos_iff hKind, h.fresh.not_justClosed, h.freshAbove.not_justClosed]
  · obtain ⟨ha, hb⟩ := h.closed hKind
    simp only [ha, hb, not_true_eq_false, and_false]

/-- Skipping one more token. -/
theorem Stuck.advance (h : E.Stuck nesting a b) (hEnd : a.current.kind ≠ .endOfInput)
    (hOwn : ¬ (nesting = 0 ∧ a.atOwnBrace = true))
    (hSemicolon : ¬ (nesting = 0 ∧ a.current.kind = .semicolon)) :
    E.At (nestingAfter nesting a.current.kind) a.advance b.advance := by
  rcases h with h | ⟨rfl, h⟩
  · refine ⟨h.advance_aligned hEnd, ?_, h.fresh.settled.advance, h.freshAbove.settled.advance⟩
    show E.inside (a.depth + nestingAfter nesting a.current.kind) a.tokens.tail
    by_cases hKind : a.current.kind = .semicolon
    · rw [hKind]
      refine (E.terminate (h.inside_cons hEnd) hKind).resolve_right fun hZero => hSemicolon ?_
      exact ⟨by omega, hKind⟩
    · have hPass := E.pass (h.inside_cons hEnd) hKind
      rwa [nestingAfter_add] at hPass
      intro hBrace
      by_cases hZero : nesting = 0 ∧ 0 < a.depth
      · refine absurd ⟨hZero.1, atOwnBrace_iff.mpr ⟨hBrace, hZero.2, ?_⟩⟩ hOwn
        exact h.fresh.not_justClosed
      · omega
  · have hNesting : nestingAfter 0 a.current.kind = 0 := by
      by_cases hClose : a.current.kind = .rightBrace
      · rw [hClose]
        rfl
      · exact nestingAfter_of_ne 0 h.not_leftBrace hClose
    rw [hNesting]
    exact h.advance

/-- Skipping stops before the same tokens. -/
theorem At.stops_iff (h : E.At nesting a b) :
    (b.current.kind = .endOfInput ∨
        (nesting = 0 ∧ 0 < b.depth ∧ b.current.kind = .rightBrace)) ↔
      (a.current.kind = .endOfInput ∨
        (nesting = 0 ∧ 0 < a.depth ∧ a.current.kind = .rightBrace)) := by
  by_cases hEnd : a.current.kind = .endOfInput
  · refine iff_of_true ?_ (.inl hEnd)
    rw [h.current_kind, hEnd]
    rcases E.exhausted (h.inside_nil hEnd) with ⟨-, hFinish, -⟩ | ⟨hZero, hLift, hFinish, -⟩
    · exact .inl hFinish
    · have hDepth := h.depth
      exact .inr ⟨by omega, by omega, hFinish⟩
  · rw [h.current_eq hEnd]
    refine or_congr_right (and_congr_right fun hNesting => ?_)
    subst hNesting
    rw [and_comm, and_comm (a := 0 < a.depth)]
    exact and_congr_right h.depth_pos_iff

/-- Where skipping stops a statement may begin. -/
theorem At.between_of_stops (h : E.At nesting a b)
    (hStops : a.current.kind = .endOfInput ∨
      (nesting = 0 ∧ 0 < a.depth ∧ a.current.kind = .rightBrace)) : E.Between a b := by
  rcases hStops with hEnd | ⟨rfl, -⟩
  · refine ⟨h.toAligned, ?_, h.fresh, h.freshAbove⟩
    rw [tokens_eq_nil h.plain hEnd]
    rcases E.exhausted (h.inside_nil hEnd) with ⟨-, -, hAll⟩ | ⟨hZero, -⟩
    · exact .inl (hAll _)
    · exact .inr ⟨by omega, rfl⟩
  · exact h.between

/-- What skipping does where the part ends. -/
theorem At.skipped_end (h : E.At nesting a b) (hEnd : a.current.kind = .endOfInput) :
    E.Recovered a (skipStatement nesting b).cursor false (skipStatement nesting b).value := by
  have hNil := tokens_eq_nil h.plain hEnd
  have hKind := h.current_kind
  rw [hEnd] at hKind
  rcases E.exhausted (h.inside_nil hEnd) with
    ⟨hFollowing, hFinish, hAll⟩ | ⟨hZero, hLift, hFinish, -⟩
  · rw [hFinish] at hKind
    rw [skipStatement_of_end hKind]
    refine .onward rfl rfl ⟨h.advance (.inr hFollowing), .inl ?_, ?_, ?_⟩
    · show E.inside a.depth a.tokens.tail
      rw [hNil]
      exact hAll a.depth
    · exact h.fresh.settled.advance
    · exact h.freshAbove.settled.advance
  · rw [hFinish] at hKind
    obtain ⟨hZero, rfl⟩ := Nat.add_eq_zero_iff.mp hZero
    have hDepth : 0 < b.depth := by
      rw [h.depth]
      omega
    have hOwn : b.atOwnBrace = true :=
      atOwnBrace_iff.mpr ⟨hKind, hDepth, h.freshAbove.not_justClosed⟩
    rw [skipStatement_of_atOwnBrace hOwn]
    exact .outerBrace rfl rfl h.toAligned hNil hZero

/-- What is skipped is the same in both texts, by induction over the tokens skipped. -/
theorem skipped (nesting : Nat) (a b : Cursor) (h : E.Stuck nesting a b) :
    E.Recovered (skipStatement nesting a).cursor (skipStatement nesting b).cursor
      (skipStatement nesting a).value (skipStatement nesting b).value := by
  fun_induction skipStatement nesting a generalizing b with
  | case1 nesting a hEnd =>
    have hAt : E.At nesting a b := by
      refine h.resolve_right fun hBehind => hBehind.2.nonempty ?_
      exact tokens_eq_nil hBehind.2.plain hEnd
    exact hAt.skipped_end hEnd
  | case2 nesting a hEnd hOwn =>
    have hOwnAbove := (h.ownBrace_iff hEnd).mpr hOwn
    obtain ⟨rfl, hOwn⟩ := hOwn
    have hAt : E.At 0 a b := by
      refine h.resolve_right fun hBehind => (atOwnBrace_iff.mp hOwn).2.2 ?_
      exact (hBehind.2.closed (current_of_atOwnBrace hOwn)).1
    rw [skipStatement_of_atOwnBrace hOwnAbove.2]
    exact .ownBrace rfl rfl hAt hOwn
  | case3 nesting a hEnd hOwn hSemicolon =>
    obtain ⟨rfl, hSemicolon⟩ := hSemicolon
    have hAt : E.At 0 a b := h.resolve_right fun hBehind => hBehind.2.not_semicolon hSemicolon
    rw [skipStatement_of_semicolon (hAt.current_eq hEnd ▸ hSemicolon)]
    exact .onward rfl rfl (hAt.between_of_semicolon hSemicolon)
  | case4 nesting a hEnd hOwn hSemicolon nesting' hStop =>
    have hNext := h.advance hEnd hOwn hSemicolon
    have hCurrent := h.aligned.current_eq hEnd
    have hStopAbove := hNext.stops_iff.mpr hStop
    rw [← hCurrent] at hEnd hSemicolon hStopAbove
    rw [← h.ownBrace_iff (hCurrent ▸ hEnd)] at hOwn
    rw [skipStatement_of_stop hEnd hOwn hSemicolon hStopAbove]
    exact .onward rfl rfl (hNext.between_of_stops hStop)
  | case5 nesting a hEnd hOwn hSemicolon nesting' hStop ih =>
    have hNext := h.advance hEnd hOwn hSemicolon
    have hCurrent := h.aligned.current_eq hEnd
    have hStopAbove := mt hNext.stops_iff.mp hStop
    have hRest := ih b.advance (.inl hNext)
    rw [← hCurrent] at hEnd hSemicolon hStopAbove
    rw [← h.ownBrace_iff (hCurrent ▸ hEnd)] at hOwn
    rw [skipStatement_of_not_stop hEnd hOwn hSemicolon hStopAbove, hCurrent]
    exact hRest

/-- Recovery keeps the part and the larger text together. -/
theorem recovered (h : E.Stuck 0 a b) :
    E.Recovered a.recover.cursor b.recover.cursor a.recover.value b.recover.value :=
  skipped 0 a b h

end Embedding

end MonkeyLang
