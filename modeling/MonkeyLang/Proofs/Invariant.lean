import MonkeyLang.Proofs.Reading.Induction

/-!
# Invariants of reading

Everything a parse does is put together from a few ways to build an attempt. A property of
attempts that all of these preserve holds of every attempt a parse makes; `Invariant` lists what
has to be checked, and `Invariant.reading` is the induction over the functions that read. Where
the property is about cursors alone, it is enough to check how they move
(`Invariant.of_movements`).

Two invariants are established here:

* `Cursor.depth_statement` : reading leaves every block it enters.
* `Cursor.accounted_statement` : a statement that is not read has been reported, and every
  other diagnostic belongs to a statement given up on the way.
-/

namespace MonkeyLang

open Cursor

/-- The properties of attempts that every way to build an attempt preserves. -/
structure Invariant (Q : {c : Cursor} → {α : Type} → Attempt c α → Prop) : Prop where
  stay : ∀ {c : Cursor} {α : Type} (v : α), Q (.stay (some v) : Attempt c α)
  fail : ∀ {c : Cursor} {α : Type} (d : Diagnostic), Q (.fail d : Attempt c α)
  advance : ∀ {c : Cursor} {α : Type} (v : α),
    Q (.goto (some v) c.advance c.remaining_advance_le : Attempt c α)
  close : ∀ {c : Cursor} {α : Type} (v : α), c.current.kind = .rightBrace →
    Q (.goto (some v) c.closeBlock c.remaining_closeBlock_le : Attempt c α)
  advancing : ∀ {c : Cursor} {α : Type} {s : Attempt c.advance α}, Q s →
    Q (.advancing s : Attempt c α)
  inBlock : ∀ {c : Cursor} {α : Type} {s : Attempt c.enterBlock α}, Q s →
    Q (.inBlock s : Attempt c α)
  mapValue : ∀ {c : Cursor} {α β : Type} (f : α → β) {s : Attempt c α}, Q s → Q (s.mapValue f)
  andThen : ∀ {c : Cursor} {α β : Type} {s : Attempt c α}
    {f : α → (c' : Cursor) → c'.remaining ≤ c.remaining → Attempt c' β},
    Q s → (∀ v c' h, Q (f v c' h)) → Q (s.andThen f)
  orRecover : ∀ {c : Cursor} {α β : Type} {s : Attempt c α}
    {found : α → (c' : Cursor) → c'.remaining ≤ c.remaining → Attempt c' β}
    {lost : Bool → (c' : Cursor) → c'.remaining ≤ c.remaining → Attempt c' β},
    Q s → (∀ v c' h, Q (found v c' h)) →
    (∀ atBrace c' h, (atBrace = true → c'.current.kind = .rightBrace) → Q (lost atBrace c' h)) →
    Q (s.orRecover found lost : Attempt c β)

namespace Invariant

variable {Q : {c : Cursor} → {α : Type} → Attempt c α → Prop}

theorem expect (hQ : Invariant Q) (c : Cursor) (kind : Token.Kind) : Q (c.expect kind) := by
  unfold Cursor.expect
  split
  · exact hQ.advance ()
  · exact hQ.fail _

theorem endStatement (hQ : Invariant Q) (c : Cursor) {α : Type} (value : α) :
    Q (c.endStatement value) := by
  unfold Cursor.endStatement
  split
  · exact hQ.advance value
  · exact hQ.stay value

/-- An invariant holds of everything that is read. -/
theorem reading (hQ : Invariant Q) :
    (∀ c, Q (statement c)) ∧ (∀ limit c, Q (expression limit c)) ∧
      (∀ limit left c, Q (operators limit left c)) ∧ (∀ c, Q (operand c)) ∧
      (∀ c, Q (alternative c)) ∧ (∀ c, Q (block c)) ∧ ∀ c, Q (blockRest c) := by
  refine ReadingCases.all (S := fun c => Q (statement c))
    (E := fun limit c => Q (expression limit c))
    (O := fun limit left c => Q (operators limit left c)) (P := fun c => Q (operand c))
    (A := fun c => Q (alternative c)) (B := fun c => Q (block c))
    (R := fun c => Q (blockRest c)) ?_
  constructor
  case binding =>
    intro c hKind ih
    rw [statement_of_letWord hKind]
    refine hQ.andThen (hQ.expect _ _) fun _ c₁ h₁ => ?_
    refine hQ.andThen (hQ.expect _ _) fun _ c₂ h₂ => ?_
    exact hQ.advancing (hQ.andThen (ih c₂ (Nat.le_trans h₂ h₁)) fun _ c₃ _ =>
      hQ.endStatement c₃ _)
  case returning =>
    intro c hKind ih
    rw [statement_of_returnWord hKind]
    exact hQ.advancing (hQ.andThen ih fun _ c' _ => hQ.endStatement c' _)
  case expressionStatement =>
    intro c hLet hReturn ih
    rw [statement_of_expression hLet hReturn]
    exact hQ.andThen ih fun _ c' _ => hQ.endStatement c' _
  case expression =>
    intro limit c ihOperand ihOperators
    rw [expression]
    exact hQ.andThen ihOperand ihOperators
  case stronger =>
    intro limit left c op hOp hLimit ihRight ihRest
    rw [operators_of_stronger hOp hLimit]
    exact hQ.advancing (hQ.advancing (hQ.andThen ihRight ihRest))
  case stops =>
    intro limit left c hStops
    rw [operators_of_stops hStops]
    exact hQ.stay left
  case single =>
    intro c e h
    rw [operand_of_isOperand h]
    exact hQ.stay e
  case badInteger =>
    intro c hKind hValue
    rw [operand_of_bad_integer hKind hValue]
    exact hQ.fail _
  case unary =>
    intro c op hOp ih
    rw [operand_of_unary op hOp]
    exact hQ.advancing (hQ.mapValue _ ih)
  case group =>
    intro c hKind ih
    rw [operand_of_leftParen hKind]
    exact hQ.advancing (hQ.andThen ih fun _ c₁ _ => hQ.mapValue _ (hQ.expect c₁ _))
  case conditional =>
    intro c hKind ihTest ihBlock ihOther
    rw [operand_of_ifWord hKind]
    refine hQ.andThen (hQ.expect _ _) fun _ c₁ h₁ => hQ.advancing ?_
    refine hQ.andThen (ihTest c₁ h₁) fun _ c₂ h₂ => ?_
    refine hQ.andThen (hQ.expect _ _) fun _ c₃ h₃ => ?_
    refine hQ.andThen (hQ.expect _ _) fun _ c₄ h₄ => ?_
    have hLess := Nat.le_trans h₄ (Nat.le_trans h₃ h₂)
    refine hQ.andThen (ihBlock c₁ h₁ c₄ hLess) fun _ c₅ h₅ => ?_
    exact hQ.mapValue _ (ihOther c₁ h₁ c₅ (Nat.le_trans h₅ hLess))
  case noOperand =>
    intro c hStarts
    rw [operand_of_not_startsOperand hStarts]
    exact hQ.fail _
  case alternative =>
    intro c hElse ih
    rw [alternative, if_pos hElse]
    exact hQ.advancing (hQ.andThen (hQ.expect _ _) fun _ c' h => hQ.mapValue _ (ih c' h))
  case noAlternative =>
    intro c hElse
    rw [alternative, if_neg hElse]
    exact hQ.stay none
  case block =>
    intro c ih
    rw [block]
    exact hQ.inBlock ih
  case closed =>
    intro c hBrace
    rw [blockRest_of_rightBrace hBrace]
    exact hQ.close [] hBrace
  case unclosed =>
    intro c hEnd
    rw [blockRest_of_end hEnd]
    exact hQ.fail _
  case more =>
    intro c hBrace hEnd ihStatement ihRest
    rw [blockRest, if_neg hBrace, dif_neg hEnd]
    refine hQ.orRecover ihStatement (fun _ c' h => hQ.advancing (hQ.mapValue _ (ihRest c' h))) ?_
    intro atBrace c' h hAtBrace
    cases atBrace with
    | false => exact hQ.advancing (ihRest c' h)
    | true => exact hQ.close [] (hAtBrace rfl)

/-- A relation between the cursors on which an attempt starts and ends is an invariant if it holds
of the single movements of a cursor. -/
theorem of_movements {R : Cursor → Cursor → Prop} (refl : ∀ c, R c c)
    (trans : ∀ {a b c}, R a b → R b c → R a c) (advance : ∀ c, R c c.advance)
    (close : ∀ c, c.current.kind = .rightBrace → R c c.closeBlock)
    (inBlock : ∀ {c c'}, R c.enterBlock c' → R c c'.leaveBlock)
    (recover : ∀ c : Cursor, R c c.recover.cursor) : Invariant fun {c _} s => R c s.cursor where
  stay _ := refl _
  fail _ := refl _
  advance _ := advance _
  close _ := close _
  advancing h := trans (advance _) h
  inBlock h := inBlock h
  mapValue _ _ h := h
  andThen {c _ _ s f} hs hf := by
    cases hValue : s.value with
    | some v =>
      rw [Attempt.andThen_of_some hValue]
      exact trans hs (hf v _ _)
    | none =>
      rw [Attempt.andThen_of_none hValue]
      exact hs
  orRecover {c _ _ s found lost} hs hFound hLost := by
    cases hValue : s.value with
    | some v =>
      rw [Attempt.orRecover_of_some hValue]
      exact trans hs (hFound v _ _)
    | none =>
      rw [Attempt.orRecover_of_none hValue]
      refine trans hs (trans (recover _) (hLost _ _ _ fun h => ?_))
      exact current_of_atOwnBrace (atOwnBrace_of_value_recover h)

end Invariant

/-! ## Depth -/

/-- Reading to the end of a block and leaving it comes back to the depth it started from. -/
theorem invariant_depth : Invariant fun {c _} s => s.cursor.depth = c.depth := by
  refine .of_movements (R := fun c c' => c'.depth = c.depth) (fun _ => rfl)
    (fun h h' => h'.trans h) (fun _ => rfl) (fun _ _ => rfl) (fun {c c'} h => ?_) depth_recover
  change c'.depth - 1 = c.depth
  rw [h]
  rfl

/-- A statement ends at the depth it starts at, read or not. -/
theorem Cursor.depth_statement (c : Cursor) : (statement c).cursor.depth = c.depth :=
  invariant_depth.reading.1 c

/-! ## Diagnostics -/

/-- Every diagnostic belongs to one statement given up inside the attempt, except one if the
attempt fails itself. -/
def Attempt.Accounted {c : Cursor} {α : Type} (s : Attempt c α) : Prop :=
  s.diagnostics.length = s.abandoned.length + s.value.elim 1 fun _ => 0

/-- Every way to build an attempt keeps its diagnostics accounted for. -/
theorem invariant_accounted : Invariant fun s => s.Accounted where
  stay _ := rfl
  fail _ := rfl
  advance _ := rfl
  close _ _ := rfl
  advancing h := h
  inBlock h := h
  mapValue {c _ _} f {s} h := by
    unfold Attempt.Accounted at h ⊢
    cases hValue : s.value <;> simp_all [Attempt.mapValue]
  andThen {c _ _ s f} hs hf := by
    unfold Attempt.Accounted at hs
    cases hValue : s.value with
    | some v =>
      have hNext := hf v s.cursor s.remaining_le
      unfold Attempt.Accounted at hNext ⊢
      rw [Attempt.andThen_of_some hValue]
      simp only [hValue, Option.elim] at hs
      simp only [Step.diagnostics_bind, Step.abandoned_bind, Step.value_bind, List.length_append]
      omega
    | none =>
      rw [Attempt.andThen_of_none hValue]
      rw [hValue] at hs
      exact hs
  orRecover {c _ _ s found lost} hs hFound hLost := by
    unfold Attempt.Accounted at hs
    cases hValue : s.value with
    | some v =>
      have hNext := hFound v s.cursor s.remaining_le
      unfold Attempt.Accounted at hNext ⊢
      rw [Attempt.orRecover_of_some hValue]
      simp only [hValue, Option.elim] at hs
      simp only [Step.diagnostics_bind, Step.abandoned_bind, Step.value_bind, List.length_append]
      omega
    | none =>
      have hNext := hLost s.cursor.recover.value s.cursor.recover.cursor
        (Nat.le_trans s.cursor.recover.remaining_le s.remaining_le)
        fun h => current_of_atOwnBrace (atOwnBrace_of_value_recover h)
      unfold Attempt.Accounted at hNext ⊢
      rw [Attempt.orRecover_of_none hValue]
      simp only [hValue, Option.elim] at hs
      simp only [Step.diagnostics_bind, Step.abandoned_bind, Step.value_bind, List.length_append,
        diagnostics_recover, abandoned_recover, List.length_nil, List.length_singleton]
      omega

theorem Cursor.accounted_statement (c : Cursor) : (statement c).Accounted :=
  invariant_accounted.reading.1 c

/-- A statement that cannot be read is never dropped in silence. -/
theorem Cursor.diagnostics_statement_ne_nil {c : Cursor} (h : (statement c).value = none) :
    (statement c).diagnostics ≠ [] := by
  have hAccounted := accounted_statement c
  rw [Attempt.Accounted, h] at hAccounted
  intro hNil
  rw [hNil] at hAccounted
  cases hAccounted

end MonkeyLang
