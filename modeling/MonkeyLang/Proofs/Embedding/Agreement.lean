import MonkeyLang.Proofs.Embedding.Recovery
import MonkeyLang.Operator

/-!
# Attempts that agree

Two attempts, one in a part of a text and one in the larger text, agree if they have the same
value and the same diagnostics, up to the end of input, and end at the same place. What is known
of the places where they end is left open.

* `Embedding.Agrees` is this relation. There is one rule for each way to build an attempt.
* `Embedding.Behind.agrees_expect`, `Embedding.Behind.agrees_endStatement` : single tokens.
-/

namespace MonkeyLang

open Cursor

/-- The same diagnostic, where the end of input is taken for another kind of token. -/
def Diagnostic.replaceEnd (finish : Token.Kind) : Diagnostic → Diagnostic
  | .expectedToken expected found =>
    .expectedToken (expected.replaceEnd finish) (found.replaceEnd finish)
  | .noOperand found => .noOperand (found.replaceEnd finish)
  | .invalidInteger literal => .invalidInteger literal

namespace Embedding

/-- The attempt `t` in the larger text does what the attempt `s` in the part does. Their ends
are related by `found` if they succeed and by `lost` if they fail. -/
structure Agrees (E : Embedding) (found lost : Cursor → Cursor → Prop) {a b : Cursor} {α : Type}
    (s : Attempt a α) (t : Attempt b α) : Prop where
  value : t.value = s.value
  diagnostics : t.diagnostics = s.diagnostics.map (Diagnostic.replaceEnd E.finish)
  found : ∀ v, s.value = some v → found s.cursor t.cursor
  lost : s.value = none → lost s.cursor t.cursor

variable {E : Embedding} {found lost mid : Cursor → Cursor → Prop} {a b : Cursor} {α β : Type}

/-! ## Rules -/

namespace Agrees

theorem goto (v : α) {a' b' : Cursor} (h : a'.remaining ≤ a.remaining)
    (h' : b'.remaining ≤ b.remaining) (hFound : found a' b') :
    E.Agrees found lost (.goto (some v) a' h : Attempt a α) (.goto (some v) b' h') where
  value := rfl
  diagnostics := rfl
  found _ _ := hFound
  lost hNone := nomatch hNone

theorem stay (v : α) (h : found a b) :
    E.Agrees found lost (.stay (some v) : Attempt a α) (.stay (some v) : Attempt b α) :=
  goto v (Nat.le_refl _) (Nat.le_refl _) h

theorem fail {d d' : Diagnostic} (hReason : d' = d.replaceEnd E.finish) (h : lost a b) :
    E.Agrees found lost (.fail d : Attempt a α) (.fail d' : Attempt b α) where
  value := rfl
  diagnostics := by rw [hReason]; rfl
  found _ hSome := nomatch hSome
  lost _ := h

theorem advancing {s : Attempt a.advance α} {t : Attempt b.advance α}
    (h : E.Agrees found lost s t) :
    E.Agrees found lost (.advancing s : Attempt a α) (.advancing t : Attempt b α) :=
  ⟨h.value, h.diagnostics, h.found, h.lost⟩

theorem inBlock {s : Attempt a.enterBlock α} {t : Attempt b.enterBlock α}
    (h : E.Agrees (fun a' b' => found a'.leaveBlock b'.leaveBlock)
      (fun a' b' => lost a'.leaveBlock b'.leaveBlock) s t) :
    E.Agrees found lost (.inBlock s : Attempt a α) (.inBlock t : Attempt b α) :=
  ⟨h.value, h.diagnostics, h.found, h.lost⟩

theorem mapValue (f : α → β) {s : Attempt a α} {t : Attempt b α} (h : E.Agrees found lost s t) :
    E.Agrees found lost (s.mapValue f) (t.mapValue f) where
  value := congrArg (Option.map f) h.value
  diagnostics := h.diagnostics
  found v hSome := by
    obtain ⟨u, hu, -⟩ := Option.map_eq_some_iff.mp hSome
    exact h.found u hu
  lost hNone := h.lost (Option.map_eq_none_iff.mp hNone)

theorem andThen {s : Attempt a α} {t : Attempt b α}
    {f : α → (a' : Cursor) → a'.remaining ≤ a.remaining → Attempt a' β}
    {g : α → (b' : Cursor) → b'.remaining ≤ b.remaining → Attempt b' β}
    (h : E.Agrees mid lost s t)
    (hNext : ∀ v a' b' ha hb, mid a' b' → E.Agrees found lost (f v a' ha) (g v b' hb)) :
    E.Agrees found lost (s.andThen f) (t.andThen g) := by
  cases hValue : s.value with
  | none =>
    rw [Attempt.andThen_of_none hValue, Attempt.andThen_of_none (h.value.trans hValue)]
    exact ⟨rfl, h.diagnostics, fun _ hSome => (nomatch hSome), fun _ => h.lost hValue⟩
  | some v =>
    rw [Attempt.andThen_of_some hValue, Attempt.andThen_of_some (h.value.trans hValue)]
    have hRest := hNext v _ _ s.remaining_le t.remaining_le (h.found v hValue)
    refine ⟨hRest.value, ?_, hRest.found, hRest.lost⟩
    rw [Step.diagnostics_bind, Step.diagnostics_bind, List.map_append, h.diagnostics,
      hRest.diagnostics]

theorem orRecover {s : Attempt a α} {t : Attempt b α}
    {f : α → (a' : Cursor) → a'.remaining ≤ a.remaining → Attempt a' β}
    {g : α → (b' : Cursor) → b'.remaining ≤ b.remaining → Attempt b' β}
    {f' : Bool → (a' : Cursor) → a'.remaining ≤ a.remaining → Attempt a' β}
    {g' : Bool → (b' : Cursor) → b'.remaining ≤ b.remaining → Attempt b' β}
    (h : E.Agrees mid (E.Stuck 0) s t)
    (hFound : ∀ v a' b' ha hb, a'.depth = s.cursor.depth → mid a' b' →
      E.Agrees found lost (f v a' ha) (g v b' hb))
    (hLost : ∀ v w a' b' ha hb, a'.depth = s.cursor.depth → E.Recovered a' b' v w →
      E.Agrees found lost (f' v a' ha) (g' w b' hb)) :
    E.Agrees found lost (s.orRecover f f' : Attempt a β) (t.orRecover g g' : Attempt b β) := by
  cases hValue : s.value with
  | none =>
    rw [Attempt.orRecover_of_none hValue, Attempt.orRecover_of_none (h.value.trans hValue)]
    have hRest := hLost _ _ _ _ (Nat.le_trans s.cursor.recover.remaining_le s.remaining_le)
      (Nat.le_trans t.cursor.recover.remaining_le t.remaining_le) (depth_recover s.cursor)
      (recovered (h.lost hValue))
    refine ⟨hRest.value, ?_, hRest.found, hRest.lost⟩
    simp only [Step.diagnostics_bind, diagnostics_recover, List.nil_append, List.map_append,
      h.diagnostics, hRest.diagnostics]
  | some v =>
    rw [Attempt.orRecover_of_some hValue, Attempt.orRecover_of_some (h.value.trans hValue)]
    have hRest := hFound v _ _ s.remaining_le t.remaining_le rfl (h.found v hValue)
    refine ⟨hRest.value, ?_, hRest.found, hRest.lost⟩
    rw [Step.diagnostics_bind, Step.diagnostics_bind, List.map_append, h.diagnostics,
      hRest.diagnostics]

theorem mono {found' : Cursor → Cursor → Prop} {s : Attempt a α} {t : Attempt b α}
    (h : E.Agrees found lost s t) (hFound : ∀ a' b', found a' b' → found' a' b') :
    E.Agrees found' lost s t :=
  ⟨h.value, h.diagnostics, fun v hSome => hFound _ _ (h.found v hSome), h.lost⟩

end Agrees

/-! ## Single tokens -/

/-- A required token is never the one that takes the place of the end of input. -/
theorem replaceEnd_eq_iff {kind required : Token.Kind} (hEnd : required ≠ .endOfInput)
    (hBrace : required ≠ .rightBrace) : kind.replaceEnd E.finish = required ↔ kind = required := by
  by_cases hKind : kind = .endOfInput
  · rw [hKind, Token.Kind.replaceEnd_endOfInput]
    refine iff_of_false ?_ hEnd.symm
    rcases E.finish_eq with hFinish | hFinish
    · rw [hFinish]
      exact hEnd.symm
    · rw [hFinish]
      exact hBrace.symm
  · rw [Token.Kind.replaceEnd_of_ne _ hKind]

/-- A token is required alike in both texts, if it is neither a closing brace nor the end
of input. -/
theorem Behind.agrees_expect (h : E.Behind a b) {kind : Token.Kind} (hEnd : kind ≠ .endOfInput)
    (hBrace : kind ≠ .rightBrace) :
    E.Agrees (fun a' b' => E.At 0 a' b' ∧ a'.current.kind = kind) (E.Stuck 0)
      (a.expect kind) (b.expect kind) := by
  unfold Cursor.expect
  by_cases hKind : a.upcoming.kind = kind
  · have hKindAbove : b.upcoming.kind = kind := by
      rw [h.upcoming_kind]
      exact (replaceEnd_eq_iff hEnd hBrace).mpr hKind
    rw [if_pos hKind, if_pos hKindAbove]
    exact .goto () _ _ ⟨h.advance, hKind⟩
  · have hKindAbove : b.upcoming.kind ≠ kind := by
      rw [h.upcoming_kind]
      exact mt (replaceEnd_eq_iff hEnd hBrace).mp hKind
    rw [if_neg hKind, if_neg hKindAbove]
    refine .fail ?_ (.inr ⟨rfl, h⟩)
    rw [Diagnostic.replaceEnd, Token.Kind.replaceEnd_of_ne _ hEnd, h.upcoming_kind]

/-- A semicolon is taken alike in both texts. -/
theorem Behind.agrees_endStatement (h : E.Behind a b) (v : α) :
    E.Agrees (fun a' b' => E.Between a'.advance b'.advance) lost
      (a.endStatement v) (b.endStatement v) := by
  have hIff : b.upcoming.kind = .semicolon ↔ a.upcoming.kind = .semicolon := by
    rw [h.upcoming_kind]
    exact replaceEnd_eq_iff (by decide) (by decide)
  unfold Cursor.endStatement
  by_cases hKind : a.upcoming.kind = .semicolon
  · rw [if_pos hKind, if_pos (hIff.mpr hKind)]
    exact .goto v _ _ (h.advance.between_of_semicolon hKind)
  · rw [if_neg hKind, if_neg (mt hIff.mp hKind)]
    exact .stay v h.advance.between

theorem Behind.ofKind?_upcoming (h : E.Behind a b) :
    BinaryOperator.ofKind? b.upcoming.kind = BinaryOperator.ofKind? a.upcoming.kind := by
  rw [h.upcoming_kind]
  by_cases hEnd : a.upcoming.kind = .endOfInput
  · rw [hEnd, Token.Kind.replaceEnd_endOfInput]
    rcases E.finish_eq with hFinish | hFinish
    · rw [hFinish]
    · rw [hFinish]
      rfl
  · rw [Token.Kind.replaceEnd_of_ne _ hEnd]

/-- A token that has just been read, if it is neither a brace nor a semicolon. -/
theorem At.behind_of_kind {kind : Token.Kind} (h : E.At 0 a b) (hKind : a.current.kind = kind)
    (hPlain : kind ≠ .endOfInput ∧ kind ≠ .semicolon ∧ kind ≠ .leftBrace ∧ kind ≠ .rightBrace :=
      by decide) : E.Behind a b := by
  subst hKind
  obtain ⟨hEnd, hSemicolon, hOpen, hClose⟩ := hPlain
  exact h.behind hEnd hSemicolon hOpen hClose

theorem At.current_kind_of_kind {kind : Token.Kind} (h : E.At 0 a b)
    (hKind : a.current.kind = kind) (hEnd : kind ≠ .endOfInput := by decide) :
    b.current.kind = kind := by
  subst hKind
  rw [h.current_eq hEnd]

end Embedding

end MonkeyLang
