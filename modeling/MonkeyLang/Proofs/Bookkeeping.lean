import MonkeyLang.Proofs.Bookkeeping.Phrases

/-!
# The bookkeeping of a parse

Recovery decides by the depth, the position and the brace that closed a block last whose brace it
has reached. Every call of a parse leaves these three in order, on every path out of it: also where
a call fails in the middle of nested blocks. A call that yields a tree stops on the last token of
the phrase it has read.

* `Attempt.Orderly` : what a call does to its cursor, and which tokens its tree has.
* `Attempt.Reads.orderly` : an attempt that takes the tokens of a tree is orderly.
* `calls_restore_cursor` : the calls of a parse.
-/

namespace MonkeyLang

open Cursor

namespace Cursor.Passes

variable {text ts : List Token} {c c' : Cursor}

theorem tokens_ne_nil (h : c.Passes ts c') (hStart : c.tokens ≠ []) : c'.tokens ≠ [] := by
  have hPos := List.length_pos_iff.mpr hStart
  have hTail := congrArg List.length h.passed
  rw [List.length_tail, List.length_append] at hTail
  rw [h.tokens, ← List.length_pos_iff, List.length_drop]
  omega

/-- The tokens passed, together with the one the cursor stood on, are a segment of the text. -/
theorem extract_eq (h : c.Passes ts c') (hPlaced : c.Placed text)
    (hStart : c.current.kind ≠ .endOfInput) :
    text.extract c.position (c'.position + 1) = c.current :: ts := by
  have hTokens : text.drop c.position = (c.current :: ts) ++ c'.tokens.tail := by
    rw [← hPlaced.tokens, tokens_eq_cons hStart, h.passed]
    rfl
  have hLength : c'.position + 1 - c.position = (c.current :: ts).length := by
    rw [h.position, List.length_cons]
    omega
  rw [List.extract_eq_take_drop, hTokens, hLength, List.take_left]

end Cursor.Passes

/-- The attempt begins and ends in the text, at the same depth and not further back. If it succeeds,
its value has the tokens from the position where the attempt begins through the one where it ends,
and the last of them is the current token. -/
structure Attempt.Orderly (text : List Token) {c : Cursor} {α : Type} (s : Attempt c α)
    (W : α → List Token → Prop) : Prop where
  depth : s.cursor.depth = c.depth
  position_le : c.position ≤ s.cursor.position
  begins : c.Placed text
  ends : s.cursor.Placed text
  phrase : ∀ v, s.value = some v → s.cursor.current.kind ≠ .endOfInput ∧
    text[s.cursor.position]? = some s.cursor.current ∧
    W v (text.extract c.position (s.cursor.position + 1))

/-- In a text without ends of input, a phrase that spans the tokens passed ends on the last
of them. -/
theorem Attempt.Reads.orderly {text : List Token} {c : Cursor} {α : Type} {s : Attempt c α}
    {W : α → List Token → Prop} (h : s.Reads text fun v _ ts => W v (c.current :: ts))
    (hFirst : ∀ v ts, W v ts → firstKind ts ≠ .endOfInput)
    (hPlain : ∀ t ∈ text, t.kind ≠ .endOfInput) (hRestored : Restored text c s.cursor)
    (hPlaced : c.Placed text) : s.Orderly text W where
  depth := hRestored.depth
  position_le := hRestored.position_le
  begins := hPlaced
  ends := hRestored.placed hPlaced
  phrase v hValue := by
    obtain ⟨ts, hPasses, hPost⟩ := h.passes hPlaced v hValue
    have hPlaced' := hRestored.placed hPlaced
    have hStart : c.current.kind ≠ .endOfInput := hFirst v (c.current :: ts) hPost
    have hEnd : s.cursor.current.kind ≠ .endOfInput := fun hEnd =>
      hPasses.tokens_ne_nil (tokens_ne_nil hStart) (tokens_eq_nil (hPlaced'.plain hPlain) hEnd)
    rw [hPasses.extract_eq hPlaced hStart]
    exact ⟨hEnd, hPlaced'.getElem?_position hEnd, hPost⟩

/-- Every call of a parse comes back to the depth it began at, so the program begins each of its
statements outside of all blocks. No call moves the cursor back. Where a call begins and where it
ends, the block that was closed last, if any, was closed by a brace at or before that place, and
advancing in between does not change this. If a statement, an expression, an operand, a single
operation or a block succeeds, it ends on the last of its tokens, and these are all tokens from the
place where it began. A block ends on the partner of its opening brace, and notes it. -/
theorem calls_restore_cursor {text : List Token} (hPlain : ∀ t ∈ text, t.kind ≠ .endOfInput) :
    (∀ k ∈ Call.ofParse text,
      k.outcome.cursor.depth = k.place.depth ∧ k.place.position ≤ k.outcome.cursor.position ∧
        k.place.Placed text ∧ k.outcome.cursor.Placed text) ∧
    (∀ c : Cursor, c.Placed text → c.advance.Placed text) ∧
    (∀ c c', .program c ∈ Call.ofParse text → .statement c' ∈ (Call.program c).direct →
      c'.depth = 0) ∧
    (∀ c, .statement c ∈ Call.ofParse text → c.statement.Orderly text SpansStatement) ∧
    (∀ limit c, .expression limit c ∈ Call.ofParse text →
      (c.expression limit).Orderly text Spans) ∧
    (∀ c, .operand c ∈ Call.ofParse text → c.operand.Orderly text Spans) ∧
    (∀ limit left c op, .operators limit left c ∈ Call.ofParse text →
      BinaryOperator.ofKind? c.upcoming.kind = some op → limit < op.precedence →
        operators limit left c =
          .advancing ((operation left c.advance).andThen fun e c' _ => operators limit e c') ∧
        (operation left c.advance).Orderly text (SpansOperation left)) ∧
    (∀ c, .block c ∈ Call.ofParse text → c.block.Orderly text SpansBlock ∧
      (c.block.value.isSome = true → c.block.cursor.current.kind = .rightBrace ∧
        c.block.cursor.lastClose = some c.block.cursor.position)) := by
  obtain ⟨hStatement, hExpression, -, hOperand, -, hBlock, -⟩ := (reads_cases hPlain).all
  refine ⟨fun k hk => ?_, fun c hc => hc.advance, fun c c' hc hc' => ?_, fun c hc => ?_,
    fun limit c hc => ?_, fun c hc => ?_, fun limit left c op hc hOp hLimit => ?_, fun c hc => ?_⟩
  all_goals have hPlace := Call.inPlace_of_mem_ofParse ‹_ ∈ Call.ofParse text›
  · have hRestored := k.restored text
    exact ⟨hRestored.depth, hRestored.position_le, hPlace.placed, hRestored.placed hPlace.placed⟩
  · rw [Call.eq_of_statement_mem_direct hc']
    exact hPlace.2
  · exact (hStatement c).orderly (fun _ _ h => h.firstKind_ne) hPlain (restored_statement c) hPlace
  · exact (hExpression limit c).orderly (fun _ _ h => h.firstKind_ne) hPlain
      (restored_expression limit c) hPlace
  · exact (hOperand c).orderly (fun _ _ h => h.firstKind_ne) hPlain (restored_operand c) hPlace
  · refine ⟨operators_eq_operation hOp hLimit, ?_⟩
    exact (reads_operation hPlain left c.advance).orderly (fun _ _ h => h.firstKind_ne) hPlain
      (restored_operation left c.advance) (Placed.advance hPlace)
  · obtain ⟨hPlaced, hOpen⟩ := hPlace
    have hOrderly := (hBlock c hOpen).orderly (fun _ _ h => h.firstKind_ne) hPlain
      (restored_block c) hPlaced
    refine ⟨hOrderly, fun hSome => ⟨?_, justClosed_block hSome⟩⟩
    exact current_block (hPlaced.plain hPlain) hPlaced.settled hOpen hSome

/-- In `if (a) { (if (b) { c } }` the statement in the outer block fails on the brace that has
closed the inner one. It fails at the depth it began at, with this brace noted as the last one, so
the outer block goes on to its own brace. -/
theorem calls_restore_cursor_nested :
    let text : List Token := [⟨.ifWord, "if"⟩, ⟨.leftParen, "("⟩, ⟨.identifier, "a"⟩,
      ⟨.rightParen, ")"⟩, ⟨.leftBrace, "\x7b"⟩, ⟨.leftParen, "("⟩, ⟨.ifWord, "if"⟩,
      ⟨.leftParen, "("⟩, ⟨.identifier, "b"⟩, ⟨.rightParen, ")"⟩, ⟨.leftBrace, "\x7b"⟩,
      ⟨.identifier, "c"⟩, ⟨.rightBrace, "\x7d"⟩, ⟨.rightBrace, "\x7d"⟩]
    let outer : Cursor := ⟨text.drop 4, 4, 0, none⟩
    let malformed : Cursor := ⟨text.drop 5, 5, 1, none⟩
    (∀ t ∈ text, t.kind ≠ .endOfInput) ∧
    (.statement malformed ∈ Call.ofParse text ∧ malformed.statement.value = none ∧
      malformed.statement.cursor.depth = 1 ∧ malformed.statement.cursor.position = 12 ∧
      malformed.statement.cursor.lastClose = some 12 ∧
      malformed.statement.cursor.Placed text) ∧
    .block outer ∈ Call.ofParse text ∧ outer.block.value = some [] ∧
      outer.block.cursor.depth = 0 ∧ outer.block.cursor.lastClose = some 13 ∧
      SpansBlock [] (text.extract 4 14) := by
  intro text outer malformed
  have hPlain : ∀ t ∈ text, t.kind ≠ .endOfInput := by decide
  have hMalformed : .statement malformed ∈ Call.ofParse text := by decide +kernel
  have hOuter : .block outer ∈ Call.ofParse text := by decide +kernel
  have hValue : outer.block.value = some [] := by decide +kernel
  have hPosition : outer.block.cursor.position = 13 := by decide +kernel
  obtain ⟨-, -, -, hStatements, -, -, -, hBlocks⟩ := calls_restore_cursor hPlain
  obtain ⟨hDepth, -, -, hPlaced, -⟩ := hStatements malformed hMalformed
  obtain ⟨hBlock, hClosed⟩ := hBlocks outer hOuter
  have hNoted := (hClosed (by rw [hValue]; rfl)).2
  have hSpans := (hBlock.phrase [] hValue).2.2
  rw [hPosition] at hNoted hSpans
  exact ⟨hPlain,
    ⟨hMalformed, by decide +kernel, hDepth, by decide +kernel, by decide +kernel, hPlaced⟩,
    hOuter, hValue, hBlock.depth, hNoted, hSpans⟩

end MonkeyLang
