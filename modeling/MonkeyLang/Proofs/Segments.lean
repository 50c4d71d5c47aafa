import Mathlib.Data.List.SplitBy
import MonkeyLang.Proofs.Abandoned
import MonkeyLang.Proofs.Acceptance
import MonkeyLang.Proofs.Confinement

/-!
# Diagnostics of a text without blocks

Where there are no braces, a statement ends with its semicolon or with the text, and so does what
recovery skips. So the text falls apart behind its semicolons: each segment is read as if it stood
alone, and one in which something is wrong costs one diagnostic, however much is wrong in it.

* `segments` : what stands between two cuts. `WellFormed` : nothing is wrong in a segment.
* `length_diagnostics_program_le_one` : a segment costs at most one diagnostic.
* `diagnostics_parse_segments` : the diagnostics of the text are those of its segments.
* `one_diagnostic_per_malformed_segment` : their number.
-/

namespace MonkeyLang

open Cursor

/-- Statements of the grammar in a row, the integers of which are in range. -/
def WellFormed (ts : List Token) : Prop :=
  Derives .statements (ts.map Token.kind) ∧ IntegersInRange ts

/-- The tokens, cut behind each semicolon. -/
def segments (ts : List Token) : List (List Token) :=
  ts.splitBy fun t _ => t.kind ≠ .semicolon

/-- No semicolon stands before another token. -/
def Unbroken (ts : List Token) : Prop :=
  ts.IsChain fun t _ => t.kind ≠ .semicolon

/-- There are no braces, and the tokens go to the end of input. -/
structure Flat (ts : List Token) : Prop where
  plain : ∀ t ∈ ts, t.kind ≠ .endOfInput
  opens : ∀ t ∈ ts, t.kind ≠ .leftBrace
  closes : ∀ t ∈ ts, t.kind ≠ .rightBrace

section flat

variable {ts us : List Token}

theorem Flat.subset (h : Flat us) (hSub : ts ⊆ us) : Flat ts where
  plain t ht := h.plain t (hSub ht)
  opens t ht := h.opens t (hSub ht)
  closes t ht := h.closes t (hSub ht)

/-- What has no braces is balanced. -/
theorem Flat.balanced (h : Flat ts) : Balanced ts := by
  have hNone : ∀ part, part <+: ts → opening part = 0 ∧ closing part = 0 := by
    intro part hPart
    refine ⟨List.countP_eq_zero.mpr fun t ht => ?_, List.countP_eq_zero.mpr fun t ht => ?_⟩
    · simpa using h.opens t (hPart.subset ht)
    · simpa using h.closes t (hPart.subset ht)
  obtain ⟨hOpening, hClosing⟩ := hNone ts (List.prefix_refl ts)
  refine ⟨fun part hPart => ?_, hOpening.trans hClosing.symm⟩
  rw [(hNone part hPart).1, (hNone part hPart).2]

/-- Behind the semicolon of a segment nothing is left. -/
theorem Unbroken.tail_eq_nil {c : Cursor} (h : Unbroken c.tokens)
    (hSemicolon : c.current.kind = .semicolon) : c.tokens.tail = [] := by
  have hCons := tokens_eq_cons (c := c) (by rw [hSemicolon]; decide)
  cases hTail : c.tokens.tail with
  | nil => rfl
  | cons t rest =>
    unfold Unbroken at h
    rw [hCons, hTail, List.isChain_cons_cons] at h
    exact absurd hSemicolon h.1

end flat

/-! ## One segment -/

namespace Cursor

variable {c : Cursor}

/-- Recovery reaches the end of the segment in which a statement is given up. -/
theorem tail_stopped_eq_nil (hFlat : Flat c.tokens) (hUnbroken : Unbroken c.tokens)
    (hOutside : c.depth = 0) : c.stopped.tokens.tail = [] := by
  have hRecover := value_recover_of_outside ((depth_statement c).trans hOutside)
  rcases stopped_cases hFlat.plain hRecover with hSemicolon | hTail | ⟨hInside, -⟩
  · exact Unbroken.tail_eq_nil (hUnbroken.suffix c.suffix_stopped) hSemicolon
  · exact hTail
  · exact absurd hOutside (Nat.ne_of_gt hInside)

/-- A segment costs at most one diagnostic: nothing is read behind the statement that costs it. -/
theorem length_diagnostics_program_le_one (hFlat : Flat c.tokens) (hUnbroken : Unbroken c.tokens)
    (hOutside : c.depth = 0) : (program c).diagnostics.length ≤ 1 := by
  induction c using program.induct with
  | case1 c hEnd =>
    rw [program_of_end hEnd]
    exact Nat.zero_le 1
  | case2 c hEnd ih =>
    have hStatement := Call.length_diagnostics_statement hFlat.opens
    cases hValue : (statement c).value with
    | some s =>
      have hSuffix : (statement c).cursor.advance.tokens <:+ c.tokens :=
        (List.tail_suffix _).trans c.suffix_statement
      have hRest := ih _ (statement c).remaining_le (hFlat.subset hSuffix.subset)
        (hUnbroken.suffix hSuffix) ((depth_statement c).trans hOutside)
      rw [hValue] at hStatement
      rw [program_of_some hEnd hValue, Step.diagnostics_bind, List.length_append, hStatement]
      exact (Nat.zero_add _).symm ▸ hRest
    | none =>
      -- Recovery has skipped what is left of the segment, so the program is over.
      have hTail := tail_stopped_eq_nil hFlat hUnbroken hOutside
      rw [hValue] at hStatement
      rw [(program_of_onward hEnd hValue).2, List.length_append, hStatement,
        program_of_end (c := c.stopped.advance) (upcoming_of_tail_eq_nil hTail)]
      exact Nat.le_refl 1

end Cursor

/-- Nothing is reported on a text that the grammar derives, and on no other. -/
theorem diagnostics_parse_eq_nil_iff_wellFormed {ts : List Token}
    (hPlain : ∀ t ∈ ts, t.kind ≠ .endOfInput) : (parse ts).diagnostics = [] ↔ WellFormed ts :=
  (diagnostics_parse_eq_nil_iff_written hPlain).trans exists_written_statements_iff

open Classical in
/-- A segment costs one diagnostic if it is malformed, and none otherwise. -/
theorem length_diagnostics_parse_of_unbroken {ts : List Token} (hFlat : Flat ts)
    (hUnbroken : Unbroken ts) :
    (parse ts).diagnostics.length = if WellFormed ts then 0 else 1 := by
  have hLe : (parse ts).diagnostics.length ≤ 1 :=
    length_diagnostics_program_le_one (c := .start ts) hFlat hUnbroken rfl
  have hIff := diagnostics_parse_eq_nil_iff_wellFormed hFlat.plain
  split
  case isTrue hWell => exact List.length_eq_zero_iff.mpr (hIff.mpr hWell)
  case isFalse hWell =>
    have hPos := List.length_pos_iff.mpr fun hNil => hWell (hIff.mp hNil)
    exact Nat.le_antisymm hLe hPos

/-! ## Segments in a row -/

/-- Where segments begin that end with a semicolon, up to the last one, each is read as if it stood
alone. -/
theorem Cursor.diagnostics_program_flatten {parts : List (List Token)} {c : Cursor}
    (hTokens : c.tokens = parts.flatten) (hFlat : Flat parts.flatten)
    (hEnds : parts.IsChain fun segment _ => EndsStatement segment) (hOutside : c.depth = 0)
    (hFresh : c.Fresh) :
    (program c).diagnostics = parts.flatMap fun segment => (parse segment).diagnostics := by
  induction parts generalizing c with
  | nil =>
    rw [program_of_end (congrArg firstKind hTokens)]
    rfl
  | cons segment rest ih =>
    have hSegment : Flat segment := hFlat.subset (List.subset_append_left _ _)
    cases rest with
    | nil =>
      rw [List.flatten_cons, List.flatten_nil, List.append_nil] at hTokens
      rw [List.flatMap_singleton, (program_eq_parse hSegment.plain hTokens hOutside hFresh).2]
    | cons next rest =>
      have hRest : Flat (next :: rest).flatten := hFlat.subset (List.subset_append_right _ _)
      rw [List.isChain_cons_cons] at hEnds
      have hBetween : (Embedding.front (next :: rest).flatten).Between (.start segment) c :=
        { tokens := hTokens
          depth := hOutside
          plain := hSegment.plain
          inside := .inl ⟨closes_zero_iff_balanced.mpr hSegment.balanced, hEnds.1⟩
          fresh := fresh_start segment
          freshAbove := hFresh }
      obtain ⟨c', hTokens', hOutside', hFresh', -, hReports⟩ :=
        Embedding.program_append rfl rfl _ _ hBetween rfl
      rw [hReports, ih hTokens' hRest hEnds.2 hOutside' hFresh']
      rfl

/-- Every segment but the last one ends with a semicolon. -/
theorem isChain_segments (ts : List Token) :
    (segments ts).IsChain fun segment _ => EndsStatement segment := by
  refine (List.isChain_getLast_head_splitBy _ ts).imp ?_
  rintro segment next ⟨hSegment, -, hLast⟩
  exact ⟨_, List.getLast?_eq_some_getLast hSegment, by simpa using hLast⟩

theorem unbroken_of_mem_segments {ts segment : List Token} (h : segment ∈ segments ts) :
    Unbroken segment :=
  (List.isChain_of_mem_splitBy h).imp fun t _ hKind => by simpa using hKind

/-- The diagnostics of a text without braces are those of its segments. -/
theorem diagnostics_parse_segments {ts : List Token} (hFlat : Flat ts) :
    (parse ts).diagnostics = (segments ts).flatMap fun segment => (parse segment).diagnostics := by
  have hJoin : (segments ts).flatten = ts := List.flatten_splitBy _ ts
  exact diagnostics_program_flatten (c := .start ts) hJoin.symm (hJoin.symm ▸ hFlat)
    (isChain_segments ts) rfl (fresh_start ts)

open Classical in
/-- If each part costs one diagnostic or none, the diagnostics count the malformed parts. -/
theorem length_diagnostics_of_forall {parts : List (List Token)}
    (h : ∀ segment ∈ parts,
      (parse segment).diagnostics.length = if WellFormed segment then 0 else 1) :
    (parts.flatMap fun segment => (parse segment).diagnostics).length =
      parts.countP fun segment => ¬ WellFormed segment := by
  induction parts with
  | nil => rfl
  | cons segment rest ih =>
    obtain ⟨hSegment, hRest⟩ := List.forall_mem_cons.mp h
    rw [List.flatMap_cons, List.length_append, hSegment, ih hRest, List.countP_cons]
    by_cases hWell : WellFormed segment <;> simp [hWell, Nat.add_comm]

open Classical in
/-- In a text without braces, cut behind each semicolon, each malformed segment costs one
diagnostic, however much is wrong in it, and a well-formed one costs none. -/
theorem one_diagnostic_per_malformed_segment {tokens : List Token}
    (hPlain : ∀ t ∈ tokens, t.kind ≠ .endOfInput)
    (hBraces : ∀ t ∈ tokens, t.kind ≠ .leftBrace ∧ t.kind ≠ .rightBrace) :
    (parse tokens).diagnostics.length =
        (segments tokens).countP (fun segment => ¬ WellFormed segment) ∧
      (parse tokens).diagnostics =
        (segments tokens).flatMap (fun segment => (parse segment).diagnostics) ∧
      ∀ segment ∈ segments tokens,
        (parse segment).diagnostics.length = if WellFormed segment then 0 else 1 := by
  have hFlat : Flat tokens :=
    ⟨hPlain, fun t ht => (hBraces t ht).1, fun t ht => (hBraces t ht).2⟩
  have hReports := diagnostics_parse_segments hFlat
  have hSegments : ∀ segment ∈ segments tokens,
      (parse segment).diagnostics.length = if WellFormed segment then 0 else 1 := by
    intro segment hSegment
    have hSublist : segment ⊆ (segments tokens).flatten :=
      fun t ht => List.mem_flatten_of_mem hSegment ht
    rw [segments, List.flatten_splitBy] at hSublist
    exact length_diagnostics_parse_of_unbroken (hFlat.subset hSublist)
      (unbroken_of_mem_segments hSegment)
  refine ⟨?_, hReports, hSegments⟩
  rw [hReports]
  exact length_diagnostics_of_forall hSegments

open Classical in
/-- In `let 1 = = 2 ; ) let ( ; x 5 ; 9223372036854775808 ; ; y +` all segments but the third one
are malformed. Of the two mistakes in the first one and the three in the second one the first is
reported. -/
theorem one_diagnostic_per_malformed_segment_garbage :
    let first : List Token := [⟨.letWord, "let"⟩, ⟨.integer, "1"⟩, ⟨.assign, "="⟩,
      ⟨.assign, "="⟩, ⟨.integer, "2"⟩, ⟨.semicolon, ";"⟩]
    let second : List Token := [⟨.rightParen, ")"⟩, ⟨.letWord, "let"⟩, ⟨.leftParen, "("⟩,
      ⟨.semicolon, ";"⟩]
    let third : List Token := [⟨.identifier, "x"⟩, ⟨.integer, "5"⟩, ⟨.semicolon, ";"⟩]
    let rest : List Token := [⟨.integer, "9223372036854775808"⟩, ⟨.semicolon, ";"⟩,
      ⟨.semicolon, ";"⟩, ⟨.identifier, "y"⟩, ⟨.plus, "+"⟩]
    let tokens := first ++ second ++ third ++ rest
    ((∀ t ∈ tokens, t.kind ≠ .endOfInput) ∧
        ∀ t ∈ tokens, t.kind ≠ .leftBrace ∧ t.kind ≠ .rightBrace) ∧
      segments tokens = [first, second, third, rest.take 2, [⟨.semicolon, ";"⟩], rest.drop 3] ∧
      (parse tokens).diagnostics = [.expectedToken .identifier .integer, .noOperand .rightParen,
        .invalidInteger "9223372036854775808", .noOperand .semicolon, .noOperand .endOfInput] ∧
      (segments tokens).countP (fun segment => ¬ WellFormed segment) = 5 ∧ WellFormed third := by
  intro first second third rest tokens
  have hPlain : ∀ t ∈ tokens, t.kind ≠ .endOfInput := by decide
  have hBraces : ∀ t ∈ tokens, t.kind ≠ .leftBrace ∧ t.kind ≠ .rightBrace := by decide
  have hReports : (parse tokens).diagnostics = [.expectedToken .identifier .integer,
      .noOperand .rightParen, .invalidInteger "9223372036854775808", .noOperand .semicolon,
      .noOperand .endOfInput] := by decide +kernel
  obtain ⟨hCount, -, hSegments⟩ := one_diagnostic_per_malformed_segment hPlain hBraces
  rw [hReports] at hCount
  have hThird := hSegments third (by decide)
  refine ⟨⟨hPlain, hBraces⟩, by decide, hReports, hCount.symm, ?_⟩
  by_contra hMalformed
  rw [if_neg hMalformed] at hThird
  exact absurd hThird (by decide +kernel)

end MonkeyLang
