import Mathlib.Data.List.Perm.Basic
import MonkeyLang.Proofs.Reading.Calls

/-!
# Statements that are given up

A statement that cannot be read is given up, and recovery skips the rest of it. Every such
statement costs one diagnostic. Nothing is given up in silence, and no failure is reported twice,
although it passes through many calls on its way to the one that gives the statement up.

* `Call.outcome` : what a call comes to. `Call.isLost`, `Call.isRecovery` : the calls of a statement
  that cannot be read, and those of recovery.
* `Step.MadeOf` : what is given up in a step is given up in the calls it makes, with one rule for
  each way to build a step.
* `Call.filterMap_recovery?` : the places where recovery begins are those where statements are
  given up.
* `Call.countP_isLost_inner` : statements are lost as often as recovery is called.
* `one_diagnostic_per_lost_statement` : the diagnostics of a parse, and of any call in it, counted
  by the statements that are lost.
-/

namespace MonkeyLang

open Cursor

namespace Cursor

theorem abandoned_skipStatement (nesting : Nat) (c : Cursor) :
    (skipStatement nesting c).abandoned = [] := by
  fun_induction skipStatement nesting c with
  | case5 nesting c hEnd hOwn hSemicolon nesting' hStop ih => exact ih
  | _ => rfl

/-- A program reports what belongs to the statements given up in it, and no more. -/
theorem accounted_program (c : Cursor) :
    (program c).diagnostics.length = (program c).abandoned.length := by
  induction c using program.induct with
  | case1 c hEnd =>
    rw [program_of_end hEnd]
    rfl
  | case2 c hEnd ih =>
    have hStatement := accounted_statement c
    unfold Attempt.Accounted at hStatement
    cases hValue : (statement c).value with
    | some s =>
      have hRest := ih _ (statement c).remaining_le
      rw [hValue] at hStatement
      rw [program_of_some hEnd hValue]
      simp only [Step.diagnostics_bind, Step.abandoned_bind, Step.diagnostics_advancing,
        Step.abandoned_advancing, Step.diagnostics_map, Step.abandoned_map, List.length_append,
        hStatement, hRest, Option.elim, Nat.add_zero]
    | none =>
      have hRest := ih _ c.remaining_stopped_le
      rw [hValue] at hStatement
      rw [program_of_none hEnd hValue]
      simp only [Step.diagnostics_bind, Step.abandoned_bind, Step.diagnostics_advancing,
        Step.abandoned_advancing, diagnostics_recover, abandoned_recover, List.length_append,
        List.length_nil, List.length_singleton, hStatement, Option.elim]
      rw [stopped] at hRest
      omega

end Cursor

namespace Call

/-- What a call comes to, whatever its value. -/
def outcome : (k : Call) → Attempt k.place Unit
  | program c => Step.map (fun _ => some ()) c.program
  | statement c => c.statement.mapValue fun _ => ()
  | expression limit c => (c.expression limit).mapValue fun _ => ()
  | operand c => c.operand.mapValue fun _ => ()
  | operators limit left c => (Cursor.operators limit left c).mapValue fun _ => ()
  | alternative c => c.alternative.mapValue fun _ => ()
  | block c => c.block.mapValue fun _ => ()
  | blockRest c => c.blockRest.mapValue fun _ => ()
  | recover c => Step.map (fun _ => some ()) c.recover
  | skip nesting c => Step.map (fun _ => some ()) (skipStatement nesting c)

/-- Whether the call is that of a statement that cannot be read. -/
def isLost : Call → Bool
  | statement c => c.statement.value.isNone
  | _ => false

/-- Where recovery begins, if the call is one of recovery. -/
def recovery? : Call → Option Cursor
  | recover c => some c
  | _ => none

/-- Whether the call is one of recovery. -/
def isRecovery (k : Call) : Bool :=
  k.recovery?.isSome

end Call

/-- What is given up in the step is given up in the given calls. -/
def Step.MadeOf {c : Cursor} {α : Type} (s : Step c α) (ks : List Call) : Prop :=
  s.abandoned = ks.flatMap fun k => k.outcome.abandoned

namespace Step.MadeOf

variable {c : Cursor} {α β : Type} {ks : List Call}

theorem stay (v : α) : (Step.stay v : Step c α).MadeOf [] := rfl

theorem fail (d : Diagnostic) : (Step.fail d : Attempt c α).MadeOf [] := rfl

theorem goto (v : α) (c' : Cursor) (h : c'.remaining ≤ c.remaining) :
    (Step.goto v c' h : Step c α).MadeOf [] := rfl

theorem advancing {s : Step c.advance α} (h : s.MadeOf ks) : (Step.advancing s).MadeOf ks := h

theorem mapValue {s : Attempt c α} (h : s.MadeOf ks) (f : α → β) : (s.mapValue f).MadeOf ks := h

theorem expect (c : Cursor) (kind : Token.Kind) : (c.expect kind).MadeOf [] := by
  unfold Cursor.expect
  split <;> rfl

theorem endStatement (c : Cursor) (v : α) : (c.endStatement v).MadeOf [] := by
  unfold Cursor.endStatement
  split <;> rfl

/-- A call by itself. -/
theorem call (k : Call) {s : Step c α} (h : s.abandoned = k.outcome.abandoned) : s.MadeOf [k] :=
  h.trans (List.append_nil _).symm

theorem bind {s : Step c α} {f : α → (c' : Cursor) → c'.remaining ≤ c.remaining → Step c' β}
    {ks' : List Call} (hs : s.MadeOf ks) (hf : (f s.value s.cursor s.remaining_le).MadeOf ks') :
    (s.bind f).MadeOf (ks ++ ks') := by
  unfold Step.MadeOf at hs hf ⊢
  rw [Step.abandoned_bind, hs, hf, List.flatMap_append]

theorem andThen {s : Attempt c α}
    {f : α → (c' : Cursor) → c'.remaining ≤ c.remaining → Attempt c' β}
    {g : α → Cursor → List Call} (hs : s.MadeOf ks)
    (hf : ∀ v c' h, (f v c' h).MadeOf (g v c')) : (s.andThen f).MadeOf (ks ++ s.onward g) := by
  cases hValue : s.value with
  | some v =>
    rw [Attempt.andThen_of_some hValue, Attempt.onward_of_some hValue]
    exact hs.bind (hf v _ _)
  | none =>
    rw [Attempt.andThen_of_none hValue, Attempt.onward_of_none hValue, List.append_nil]
    exact hs

/-- What follows makes no calls. -/
theorem andThen_last {s : Attempt c α}
    {f : α → (c' : Cursor) → c'.remaining ≤ c.remaining → Attempt c' β} (hs : s.MadeOf ks)
    (hf : ∀ v c' h, (f v c' h).MadeOf []) : (s.andThen f).MadeOf ks := by
  have hBoth := hs.andThen hf
  rwa [Attempt.onward_nil, List.append_nil] at hBoth

/-- A call, and what follows it. -/
theorem call_bind (k : Call) {s : Step c α}
    {f : α → (c' : Cursor) → c'.remaining ≤ c.remaining → Step c' β}
    (hs : s.abandoned = k.outcome.abandoned)
    (hf : (f s.value s.cursor s.remaining_le).MadeOf ks) : (s.bind f).MadeOf (k :: ks) :=
  (call k hs).bind hf

/-- A call, and what follows it if it succeeds. -/
theorem call_andThen (k : Call) {s : Attempt c α}
    {f : α → (c' : Cursor) → c'.remaining ≤ c.remaining → Attempt c' β}
    {g : α → Cursor → List Call} (hs : s.abandoned = k.outcome.abandoned)
    (hf : ∀ v c' h, (f v c' h).MadeOf (g v c')) : (s.andThen f).MadeOf (k :: s.onward g) :=
  (call k hs).andThen hf

/-- An expected token, and what follows it. -/
theorem expect_andThen {kind : Token.Kind}
    {f : Unit → (c' : Cursor) → c'.remaining ≤ c.remaining → Attempt c' β}
    {g : Unit → Cursor → List Call} (hf : ∀ v c' h, (f v c' h).MadeOf (g v c')) :
    ((c.expect kind).andThen f).MadeOf ((c.expect kind).onward g) :=
  (expect c kind).andThen hf

end Step.MadeOf

namespace Call

variable {c : Cursor}

/-! ## What is given up in each case -/

theorem madeOf_conditional (hKind : c.current.kind = .ifWord) :
    c.operand.MadeOf (operand c).direct := by
  rw [operand_of_ifWord hKind, direct_operand_of_ifWord hKind]
  refine .expect_andThen fun _ c₁ _ => .advancing ?_
  refine .call_andThen (expression .lowest c₁.advance) rfl fun _ c₂ _ => ?_
  refine .expect_andThen fun _ c₃ _ => .expect_andThen fun _ c₄ _ => ?_
  refine .call_andThen (block c₄) rfl fun _ c₅ _ => ?_
  exact .call (alternative c₅) rfl

theorem madeOf_blockRest (hBrace : c.current.kind ≠ .rightBrace)
    (hEnd : c.current.kind ≠ .endOfInput) : c.blockRest.MadeOf (blockRest c).direct := by
  have hMore : ¬ (c.current.kind = .rightBrace ∨ c.current.kind = .endOfInput) :=
    not_or.mpr ⟨hBrace, hEnd⟩
  rw [direct, if_neg hMore]
  cases hValue : c.statement.value with
  | some s =>
    rw [blockRest_of_some hBrace hEnd hValue]
    exact .call_bind (statement c) rfl (.call (blockRest c.statement.cursor.advance) rfl)
  | none =>
    rw [blockRest_of_none hBrace hEnd hValue]
    cases hRecover : c.statement.cursor.recover.value with
    | true =>
      refine .call_bind (statement c) rfl (.call_bind (recover c.statement.cursor) rfl ?_)
      rw [hRecover]
      exact .goto _ _ _
    | false =>
      refine .call_bind (statement c) rfl (.call_bind (recover c.statement.cursor) rfl ?_)
      rw [hRecover]
      exact .call (blockRest c.stopped.advance) rfl

/-- What a call is made of is read off its definition, one level deep. Nothing has to be known of
the calls below, so the hypotheses of the induction are not used. -/
theorem madeOf_cases : ReadingCases (fun c => c.statement.MadeOf (statement c).direct)
    (fun limit c => (c.expression limit).MadeOf (expression limit c).direct)
    (fun limit left c => (Cursor.operators limit left c).MadeOf (operators limit left c).direct)
    (fun c => c.operand.MadeOf (operand c).direct)
    (fun c => c.alternative.MadeOf (alternative c).direct)
    (fun c => c.block.MadeOf (block c).direct)
    (fun c => c.blockRest.MadeOf (blockRest c).direct) where
  binding {c} hKind _ := by
    rw [statement_of_letWord hKind, direct_statement_of_letWord hKind]
    refine .expect_andThen fun _ c₁ _ => .expect_andThen fun _ c₂ _ => .advancing ?_
    exact .andThen_last (.call (expression .lowest c₂.advance) rfl)
      fun _ c₃ _ => .endStatement c₃ _
  returning {c} hKind _ := by
    rw [statement_of_returnWord hKind, direct_statement_of_returnWord hKind]
    exact .advancing (.andThen_last (.call (expression .lowest c.advance) rfl)
      fun _ c' _ => .endStatement c' _)
  expressionStatement {c} hLet hReturn _ := by
    rw [statement_of_expression hLet hReturn, direct_statement_of_expression hLet hReturn]
    exact .andThen_last (.call (expression .lowest c) rfl) fun _ c' _ => .endStatement c' _
  expression {limit c} _ _ := by
    rw [Cursor.expression, direct]
    exact .call_andThen (operand c) rfl fun left c' _ => .call (operators limit left c') rfl
  stronger {limit left c op} hOp hLimit _ _ := by
    rw [operators_of_stronger hOp hLimit, direct_operators_of_stronger hOp hLimit]
    exact .advancing (.advancing (.call_andThen (expression op.precedence c.advance.advance) rfl
      fun right c' _ => .call (operators limit (.binary op left right) c') rfl))
  stops {limit left c} hStops := by
    rw [operators_of_stops hStops, direct_operators_of_stops hStops]
    exact .stay _
  single {c e} h := by
    rw [operand_of_isOperand h, direct_operand_of_isOperand h]
    exact .stay _
  badInteger {c} hKind hValue := by
    rw [operand_of_bad_integer hKind hValue, direct, hKind]
    exact .fail _
  unary {c} op hOp _ := by
    rw [operand_of_unary op hOp, direct_operand_of_unary op hOp]
    exact .call (expression .unary c.advance) rfl
  group {c} hKind _ := by
    rw [operand_of_leftParen hKind, direct_operand_of_leftParen hKind]
    exact .advancing (.andThen_last (.call (expression .lowest c.advance) rfl)
      fun _ c₁ _ => .mapValue (.expect c₁ _) _)
  conditional {c} hKind _ _ _ := madeOf_conditional hKind
  noOperand {c} hStarts := by
    rw [operand_of_not_startsOperand hStarts, direct_operand_of_not_startsOperand hStarts]
    exact .fail _
  alternative {c} hElse _ := by
    rw [Cursor.alternative, if_pos hElse, direct, if_pos hElse]
    exact .advancing (.expect_andThen fun _ c' _ => .call (block c') rfl)
  noAlternative {c} hElse := by
    rw [Cursor.alternative, if_neg hElse, direct, if_neg hElse]
    exact .stay _
  block {c} _ := by
    rw [Cursor.block]
    exact .call (blockRest c.enterBlock) rfl
  closed {c} hBrace := by
    rw [blockRest_of_rightBrace hBrace, direct, if_pos (.inl hBrace)]
    exact .goto _ _ _
  unclosed {c} hEnd := by
    rw [blockRest_of_end hEnd, direct, if_pos (.inr hEnd)]
    exact .fail _
  more hBrace hEnd _ _ := madeOf_blockRest hBrace hEnd

/-- What is given up when a program is read is given up in the calls this makes. -/
theorem madeOf_program (c : Cursor) : c.program.MadeOf (program c).direct := by
  by_cases hEnd : c.current.kind = .endOfInput
  · rw [program_of_end hEnd, direct_program_of_end hEnd]
    exact .stay _
  cases hValue : c.statement.value with
  | some s =>
    rw [program_of_some hEnd hValue, direct_program_of_some hEnd hValue]
    exact .call_bind (statement c) rfl (.call (program c.statement.cursor.advance) rfl)
  | none =>
    rw [program_of_none hEnd hValue, direct_program_of_none hEnd hValue]
    exact .call_bind (statement c) rfl (.call_bind (recover c.statement.cursor) rfl
      (.call (program c.stopped.advance) rfl))

/-! ## The places where recovery begins -/

theorem abandoned_outcome_of_mem_skip {nesting : Nat} {k : Call}
    (h : k ∈ (skip nesting c).direct) : k.outcome.abandoned = [] := by
  rw [direct] at h
  split at h
  case isTrue => cases h
  case isFalse =>
    rw [List.mem_singleton.mp h]
    exact abandoned_skipStatement _ _

/-- A call of recovery gives up a statement. All else is given up in the calls that a call
makes. -/
theorem abandoned_outcome (k : Call) :
    k.outcome.abandoned =
      k.recovery?.toList ++ k.direct.flatMap fun k' => k'.outcome.abandoned := by
  obtain ⟨hStatement, hExpression, hOperators, hOperand, hAlternative, hBlock, hRest⟩ :=
    madeOf_cases.all
  cases k with
  | program c => exact madeOf_program c
  | statement c => exact hStatement c
  | expression limit c => exact hExpression limit c
  | operand c => exact hOperand c
  | operators limit left c => exact hOperators limit left c
  | alternative c => exact hAlternative c
  | block c => exact hBlock c
  | blockRest c => exact hRest c
  | recover c =>
    change [c] = [c] ++ ((skipStatement 0 c).abandoned ++ [])
    rw [abandoned_skipStatement]
    rfl
  | skip nesting c =>
    have hDirect : (skip nesting c).direct.flatMap (fun k' => k'.outcome.abandoned) = [] :=
      List.flatMap_eq_nil_iff.mpr fun k' h => abandoned_outcome_of_mem_skip h
    rw [hDirect]
    exact abandoned_skipStatement nesting c

/-- The places where recovery begins in the course of a call are those where statements are given
up, in the same order. -/
theorem filterMap_recovery? (k : Call) :
    (k :: k.inner).filterMap recovery? = k.outcome.abandoned := by
  induction k using tree_induction with
  | h k ih =>
    have hInner : k.inner.filterMap recovery? =
        k.direct.flatMap fun k' => k'.outcome.abandoned := by
      rw [inner_eq, List.filterMap_flatMap]
      exact List.flatMap_congr ih
    rw [abandoned_outcome, ← hInner]
    cases k <;> rfl

/-! ## Statements that are lost -/

/-- The calls that a call makes, and those made in the course of these, are all inner ones. -/
theorem countP_inner (p : Call → Bool) (k : Call) :
    k.inner.countP p = k.direct.countP p + (k.direct.flatMap inner).countP p := by
  have hPerm := List.map_append_flatMap_perm k.direct id inner
  rw [List.map_id] at hPerm
  calc k.inner.countP p
      = (k.direct.flatMap fun k' => k' :: k'.inner).countP p := by rw [inner_eq]
    _ = (k.direct ++ k.direct.flatMap inner).countP p := (hPerm.countP_eq p).symm
    _ = _ := List.countP_append

/-- A part of a statement is neither a statement nor a call of recovery. -/
theorem isLost_eq_false_of_isPart {k : Call} (h : k.isPart = true) :
    k.isLost = false ∧ k.isRecovery = false := by
  cases k <;> first | exact ⟨rfl, rfl⟩ | cases h

/-- In the course of a statement, outside of its blocks, none is given up. -/
theorem countP_direct_of_inStatement {k : Call} (h : k.inStatement = true) :
    k.direct.countP isLost = k.direct.countP isRecovery := by
  refine List.countP_congr fun k' hDirect => ?_
  obtain ⟨hLost, hRecovery⟩ :=
    isLost_eq_false_of_isPart ((leads_of_mem_direct hDirect).stays h).1
  rw [hLost, hRecovery]

/-- A program recovers each time it gives up a statement of its own. -/
theorem countP_direct_program (c : Cursor) :
    (program c).direct.countP isLost = (program c).direct.countP isRecovery := by
  by_cases hEnd : c.current.kind = .endOfInput
  · rw [direct_program_of_end hEnd]
    rfl
  cases hValue : c.statement.value with
  | some s =>
    rw [direct_program_of_some hEnd hValue]
    simp [isLost, isRecovery, recovery?, hValue]
  | none =>
    rw [direct_program_of_none hEnd hValue]
    simp [List.countP_cons, isLost, isRecovery, recovery?, hValue]

/-- A block recovers each time it gives up a statement of its own. -/
theorem countP_direct_blockRest (c : Cursor) :
    (blockRest c).direct.countP isLost = (blockRest c).direct.countP isRecovery := by
  rw [direct]
  split
  case isTrue => rfl
  case isFalse =>
    cases hValue : c.statement.value with
    | some s => simp [isLost, isRecovery, recovery?, hValue]
    | none =>
      cases hRecover : c.statement.cursor.recover.value with
      | true => simp [List.countP_cons, isLost, isRecovery, recovery?, hValue]
      | false => simp [List.countP_cons, isLost, isRecovery, recovery?, hValue]

/-- Whoever calls for a statement that cannot be read calls for recovery, and nobody else does. -/
theorem countP_direct (k : Call) : k.direct.countP isLost = k.direct.countP isRecovery := by
  cases k with
  | program c => exact countP_direct_program c
  | statement _ | expression _ _ | operand _ | operators _ _ _ | alternative _ =>
    exact countP_direct_of_inStatement rfl
  | block c => rfl
  | blockRest c => exact countP_direct_blockRest c
  | recover c => rfl
  | skip nesting c =>
    rw [direct]
    split <;> rfl

/-- In the course of a call, statements are lost as often as recovery is called. -/
theorem countP_isLost_inner (k : Call) : k.inner.countP isLost = k.inner.countP isRecovery := by
  induction k using tree_induction with
  | h k ih =>
    have hBelow : (k.direct.flatMap inner).countP isLost =
        (k.direct.flatMap inner).countP isRecovery := by
      rw [List.countP_flatMap, List.countP_flatMap]
      exact congrArg List.sum (List.map_congr_left ih)
    rw [countP_inner, countP_inner, countP_direct, hBelow]

/-! ## Diagnostics -/

/-- Except for recovery, a call reports what belongs to the statements given up in it, and one
diagnostic more if it fails. -/
theorem accounted_outcome {k : Call} (h : k.isRecovery = false) : k.outcome.Accounted := by
  have hQ := invariant_accounted
  obtain ⟨hStatement, hExpression, hOperators, hOperand, hAlternative, hBlock, hRest⟩ := hQ.reading
  cases k with
  | program c => exact accounted_program c
  | statement c => exact hQ.mapValue _ (hStatement c)
  | expression limit c => exact hQ.mapValue _ (hExpression limit c)
  | operand c => exact hQ.mapValue _ (hOperand c)
  | operators limit left c => exact hQ.mapValue _ (hOperators limit left c)
  | alternative c => exact hQ.mapValue _ (hAlternative c)
  | block c => exact hQ.mapValue _ (hBlock c)
  | blockRest c => exact hQ.mapValue _ (hRest c)
  | recover c => cases h
  | skip nesting c =>
    change (skipStatement nesting c).diagnostics.length = (skipStatement nesting c).abandoned.length
    rw [diagnostics_skipStatement, abandoned_skipStatement]
    rfl

/-- In the course of a call, statements are lost as often as they are given up, not counting the
one that a call of recovery gives up. -/
theorem countP_isLost_inner_add (k : Call) :
    k.inner.countP isLost + (if k.isRecovery then 1 else 0) = k.outcome.abandoned.length := by
  rw [countP_isLost_inner, ← filterMap_recovery?, List.length_filterMap_eq_countP,
    List.countP_cons]
  rfl

/-- A call reports one diagnostic for each statement lost in its course, and one if it fails. -/
theorem length_diagnostics_outcome (k : Call) :
    k.outcome.diagnostics.length =
      k.inner.countP isLost + if k.outcome.value.isNone then 1 else 0 := by
  have hLost := k.countP_isLost_inner_add
  cases hRecovery : k.isRecovery with
  | true =>
    cases k with
    | recover c =>
      have hNone : (recover c).inner.countP isLost = 0 := Nat.succ.inj hLost
      rw [hNone]
      exact congrArg List.length (diagnostics_recover c)
    | _ => cases hRecovery
  | false =>
    have hAccounted := accounted_outcome hRecovery
    unfold Attempt.Accounted at hAccounted
    rw [hAccounted, ← hLost, hRecovery]
    cases k.outcome.value <;> rfl

/-! ## Statements without blocks -/

/-- Where no brace opens a block, all that happens in the course of a statement is part of it. -/
theorem inStatement_of_mem_inner {k : Call} (hIn : k.inStatement = true)
    (hOpens : ∀ t ∈ k.place.tokens, t.kind ≠ .leftBrace) :
    ∀ k' ∈ k.inner, k'.inStatement = true := by
  intro k' hInner
  refine (forall_mem_inner (P := fun k => k.inStatement = true ∧
    ∀ t ∈ k.place.tokens, t.kind ≠ .leftBrace) ?_ ⟨hIn, hOpens⟩ k' hInner).1
  rintro k ⟨hIn, hOpens⟩ child hDirect
  have hLeads := leads_of_mem_direct hDirect
  have hChild : ∀ t ∈ child.place.tokens, t.kind ≠ .leftBrace :=
    fun t ht => hOpens t (hLeads.suffix.subset ht)
  refine ⟨(hLeads.stays hIn).2.resolve_right fun hBrace => ?_, hChild⟩
  have hCons := tokens_eq_cons (c := child.place) (by rw [hBrace]; decide)
  exact hChild _ (hCons ▸ List.mem_cons_self) hBrace

/-- So the statement reports nothing unless it cannot be read itself. -/
theorem length_diagnostics_statement {c : Cursor}
    (hOpens : ∀ t ∈ c.tokens, t.kind ≠ .leftBrace) :
    c.statement.diagnostics.length = if c.statement.value.isNone then 1 else 0 := by
  have hNone : (statement c).inner.countP isRecovery = 0 := by
    refine List.countP_eq_zero.mpr fun k hInner => ?_
    have hPart := inStatement_of_mem_inner (k := statement c) rfl hOpens k hInner
    cases k with
    | recover c => cases hPart
    | _ => nofun
  have hLength := (statement c).length_diagnostics_outcome
  rw [countP_isLost_inner, hNone, Nat.zero_add] at hLength
  change _ = if (c.statement.value.map fun _ => ()).isNone then 1 else 0 at hLength
  rw [Option.isNone_map] at hLength
  exact hLength

end Call

/-- Every diagnostic of a parse belongs to one statement that is lost in it, in the program or in a
block at any depth, and recovery is called once for each of these, at the place where the parse
gives it up. The same holds of what any call reports, with one diagnostic more if the call itself
fails. -/
theorem one_diagnostic_per_lost_statement (tokens : List Token) :
    (parse tokens).diagnostics.length = (Call.program (.start tokens)).inner.countP Call.isLost ∧
      (parse tokens).diagnostics.length =
        (Call.program (.start tokens)).inner.countP Call.isRecovery ∧
      (Call.program (.start tokens)).inner.filterMap Call.recovery? = (parse tokens).abandoned ∧
      ∀ k : Call, k.outcome.diagnostics.length =
        k.inner.countP Call.isLost + if k.outcome.value.isNone then 1 else 0 := by
  have hLost := (Call.program (.start tokens)).length_diagnostics_outcome
  refine ⟨hLost, ?_, (Call.program (.start tokens)).filterMap_recovery?,
    Call.length_diagnostics_outcome⟩
  rw [← Call.countP_isLost_inner]
  exact hLost

end MonkeyLang
