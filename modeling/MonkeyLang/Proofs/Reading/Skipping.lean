import MonkeyLang.Proofs.Braces
import MonkeyLang.Proofs.Embedding
import MonkeyLang.Tree.Parse

/-!
# What recovery skips

Recovery begins where a statement breaks off. It does not leave the block it begins in, whatever
stands there: in a block it passes a closing brace only with the opening one, or as the first token,
if the statement has already read the block that this brace closes. It stops where a statement ends,
and only outside the braces opened on the way. Where it stands on the closing brace of the block at
once, it says so and stays.

* `Cursor.Boundary` : where skipping stops. `Cursor.Skips` : what it passes on the way.
* `Cursor.nesting_of_value_skipStatement` and `Cursor.skips_skipStatement` : the two ways in which
  skipping ends.
* `Cursor.recover_within_block` : recovery.
-/

namespace MonkeyLang

namespace Cursor

variable {nesting : Nat} {c c' : Cursor} {skipped : List Token}

/-! ## Skipping -/

/-- The places where skipping stops, with `nesting` braces open before the current token. -/
inductive Boundary (nesting : Nat) (c : Cursor) : Prop
  | finished (h : c.current.kind = .endOfInput)
  | semicolon (h : c.current.kind = .semicolon) (hNesting : nesting = 0)
  | last (h : c.upcoming.kind = .endOfInput)
  | ownBrace (hDepth : 0 < c.depth) (h : c.upcoming.kind = .rightBrace)
      (hNesting : nestingAfter nesting c.current.kind = 0)

/-- Skipping goes from `c`, where `nesting` braces have been opened on the way, over the tokens
`skipped` to `c'`. In a block every closing brace up to and including the current token of `c'`
finds a brace open that was opened on the way. Only the first token may have closed a block
before. -/
structure Skips (nesting : Nat) (c : Cursor) (skipped : List Token) (c' : Cursor) : Prop where
  tokens : c.tokens = skipped ++ c'.tokens
  position : c'.position = c.position + skipped.length
  lastClose : c'.lastClose = c.lastClose
  boundary : Boundary (nestingAlong nesting skipped) c'
  guarded : 0 < c.depth → ∀ front closed back, skipped ++ [c'.current] = front ++ closed :: back →
    closed.kind = .rightBrace → 0 < nestingAlong nesting front ∨ front = [] ∧ c.JustClosed

theorem Skips.stay (hBoundary : Boundary nesting c)
    (hBrace : c.current.kind = .rightBrace → 0 < c.depth → 0 < nesting ∨ c.JustClosed) :
    Skips nesting c [] c where
  tokens := rfl
  position := rfl
  lastClose := rfl
  boundary := hBoundary
  guarded := by
    intro hDepth front closed back hTokens hClosed
    cases front with
    | nil =>
      obtain ⟨rfl, -⟩ := List.cons.inj hTokens
      exact (hBrace hClosed hDepth).imp_right fun hJust => ⟨rfl, hJust⟩
    | cons t front => simp at hTokens

/-- The first of the tokens up to the one that skipping stops on is the current one. -/
theorem Skips.current_eq {closed : Token} {back : List Token} (h : Skips nesting c skipped c')
    (hTokens : skipped ++ [c'.current] = closed :: back) : c.current = closed := by
  have hSplit := h.tokens
  cases skipped with
  | nil =>
    obtain ⟨rfl, -⟩ := List.cons.inj hTokens
    unfold current
    rw [hSplit]
    rfl
  | cons t skipped =>
    obtain ⟨rfl, -⟩ := List.cons.inj hTokens
    exact Cursor.current_eq hSplit

theorem Skips.advancing (h : Skips (nestingAfter nesting c.current.kind) c.advance skipped c')
    (hEnd : c.current.kind ≠ .endOfInput)
    (hBrace : c.current.kind = .rightBrace → 0 < c.depth → 0 < nesting ∨ c.JustClosed)
    (hNext : c.upcoming.kind = .rightBrace → 0 < c.depth →
      0 < nestingAfter nesting c.current.kind) :
    Skips nesting c (c.current :: skipped) c' where
  tokens := by
    have hTail : c.tokens.tail = skipped ++ c'.tokens := h.tokens
    rw [tokens_eq_cons hEnd, hTail]
    rfl
  position := by
    rw [h.position, List.length_cons]
    simp only [advance]
    omega
  lastClose := h.lastClose
  boundary := h.boundary
  guarded := by
    intro hDepth front closed back hTokens hClosed
    cases front with
    | nil =>
      obtain ⟨rfl, -⟩ := List.cons.inj hTokens
      exact (hBrace hClosed hDepth).imp_right fun hJust => ⟨rfl, hJust⟩
    | cons t front =>
      obtain ⟨rfl, hTail⟩ := List.cons.inj hTokens
      rcases h.guarded hDepth front closed back hTail hClosed with hNesting | ⟨rfl, -⟩
      · exact .inl hNesting
      · -- A brace behind the current token would have stopped skipping before it.
        have hUpcoming : c.upcoming = closed := h.current_eq hTail
        exact .inl (hNext (hUpcoming ▸ hClosed) hDepth)

theorem nested_or_justClosed (hOwn : ¬ (nesting = 0 ∧ c.atOwnBrace = true))
    (hBrace : c.current.kind = .rightBrace) (hDepth : 0 < c.depth) :
    0 < nesting ∨ c.JustClosed := by
  by_cases hJust : c.JustClosed
  · exact .inr hJust
  · refine .inl (Nat.pos_of_ne_zero fun hNesting => hOwn ⟨hNesting, ?_⟩)
    exact atOwnBrace_iff.mpr ⟨hBrace, hDepth, hJust⟩

/-- Skipping reports the closing brace of the block only where it begins on it. -/
theorem nesting_of_value_skipStatement (h : (skipStatement nesting c).value = true) :
    nesting = 0 ∧ c.atOwnBrace = true := by
  fun_induction skipStatement nesting c with
  | case2 nesting c hEnd hOwn => exact hOwn
  | case5 nesting c hEnd hOwn hSemicolon nesting' hStop ih =>
    obtain ⟨hNesting, hNext⟩ := ih h
    refine absurd (.inr ⟨hNesting, ?_, ?_⟩) hStop
    · exact depth_pos_of_atOwnBrace (c := c.advance) hNext
    · exact current_of_atOwnBrace (c := c.advance) hNext
  | _ => cases h

/-- Skipping passes whole pairs of braces, until it stops. -/
theorem skips_skipStatement (h : (skipStatement nesting c).value = false) :
    ∃ skipped, Skips nesting c skipped (skipStatement nesting c).cursor := by
  fun_induction skipStatement nesting c with
  | case1 nesting c hEnd =>
    refine ⟨[], .stay (.finished hEnd) fun hBrace => ?_⟩
    rw [hEnd] at hBrace
    cases hBrace
  | case2 nesting c hEnd hOwn => cases h
  | case3 nesting c hEnd hOwn hSemicolon =>
    refine ⟨[], .stay (.semicolon hSemicolon.2 hSemicolon.1) fun hBrace => ?_⟩
    rw [hSemicolon.2] at hBrace
    cases hBrace
  | case4 nesting c hEnd hOwn hSemicolon nesting' hStop =>
    refine ⟨[], .stay ?_ (nested_or_justClosed hOwn)⟩
    rcases hStop with hLast | ⟨hNesting, hDepth, hNext⟩
    · exact .last hLast
    · exact .ownBrace hDepth hNext hNesting
  | case5 nesting c hEnd hOwn hSemicolon nesting' hStop ih =>
    obtain ⟨skipped, hSkips⟩ := ih h
    refine ⟨c.current :: skipped, hSkips.advancing hEnd (nested_or_justClosed hOwn) ?_⟩
    intro hNext hDepth
    refine Nat.pos_of_ne_zero fun hNesting => hStop (.inr ⟨hNesting, hDepth, hNext⟩)

/-! ## Recovery -/

/-- Every closing brace among the tokens from the cursor on closes a brace that is opened among
them. Only the first token may be a brace that has closed a block before. -/
def ClosesWithin (c : Cursor) (ts : List Token) : Prop :=
  ∀ front closed back, ts = front ++ closed :: back → closed.kind = .rightBrace →
    HasOpening front ∨ front = [] ∧ c.lastClose = some c.position

theorem closesWithin_nil : c.ClosesWithin [] := by
  intro front closed back hTokens
  simp at hTokens

theorem ClosesWithin.of_append {ts us : List Token} (h : c.ClosesWithin (ts ++ us)) :
    c.ClosesWithin ts := by
  rintro front closed back rfl hClosed
  refine h front closed (back ++ us) ?_ hClosed
  rw [List.append_assoc, List.cons_append]

/-- In a block, the closing braces that are skipped close braces that are skipped as well. -/
theorem Skips.closesWithin (h : Skips 0 c skipped c') (hDepth : 0 < c.depth) :
    c.ClosesWithin (skipped ++ [c'.current]) := by
  intro front closed back hTokens hClosed
  rcases h.guarded hDepth front closed back hTokens hClosed with hNesting | hFirst
  · exact .inl (hasOpening_of_nestingAlong hNesting)
  · exact .inr hFirst

theorem value_recover_iff : c.recover.value = true ↔ c.atOwnBrace = true := by
  constructor
  · intro h
    exact (nesting_of_value_skipStatement h).2
  · intro h
    show (skipStatement 0 c).value = true
    rw [skipStatement_of_atOwnBrace h]
    rfl

theorem cursor_recover_of_atOwnBrace (h : c.atOwnBrace = true) : c.recover.cursor = c := by
  show (skipStatement 0 c).cursor = c
  rw [skipStatement_of_atOwnBrace h]
  rfl

/-- Recovery stays in the block it begins in and stops where a statement ends. It stops on the
closing brace of the block only if it begins there, and does not move then. Otherwise it stops at
or before the end of input, on a semicolon outside the braces opened on the way, or, with all of
these closed, before the closing brace of the block. In a block it passes no closing brace but
those of braces opened on the way, and one that the statement has already read. Nothing is
reported, and what is known of the blocks stays as it is. -/
theorem recover_within_block (c : Cursor) :
    (c.recover.value = true ↔
      c.current.kind = .rightBrace ∧ 0 < c.depth ∧ c.lastClose ≠ some c.position) ∧
    (c.recover.value = true → c.recover.cursor = c) ∧
    (∃ skipped, c.tokens = skipped ++ c.recover.cursor.tokens ∧
      c.recover.cursor.position = c.position + skipped.length ∧
      (c.recover.value = false →
        c.recover.cursor.current.kind = .endOfInput ∨
        (c.recover.cursor.current.kind = .semicolon ∧ AllClosed skipped) ∨
        c.recover.cursor.upcoming.kind = .endOfInput ∨
        (0 < c.depth ∧ c.recover.cursor.upcoming.kind = .rightBrace ∧
          AllClosed (skipped ++ [c.recover.cursor.current]))) ∧
      (0 < c.depth → c.ClosesWithin skipped ∧
        (c.recover.value = false → c.ClosesWithin (skipped ++ [c.recover.cursor.current])))) ∧
    c.recover.diagnostics = [] ∧ c.recover.cursor.depth = c.depth ∧
      c.recover.cursor.lastClose = c.lastClose := by
  have hOwn : c.recover.value = true ↔
      c.current.kind = .rightBrace ∧ 0 < c.depth ∧ c.lastClose ≠ some c.position :=
    value_recover_iff.trans atOwnBrace_iff
  have hStay : c.recover.value = true → c.recover.cursor = c := fun h =>
    cursor_recover_of_atOwnBrace (value_recover_iff.mp h)
  refine ⟨hOwn, hStay, ?_⟩
  cases hValue : c.recover.value with
  | true =>
    rw [hStay hValue]
    refine ⟨⟨[], rfl, rfl, nofun, ?_⟩, diagnostics_recover c, rfl, rfl⟩
    exact fun _ => ⟨closesWithin_nil, nofun⟩
  | false =>
    obtain ⟨skipped, hSkips⟩ := skips_skipStatement hValue
    refine ⟨⟨skipped, hSkips.tokens, hSkips.position, fun _ => ?_, fun hDepth => ?_⟩,
      diagnostics_recover c, depth_recover c, hSkips.lastClose⟩
    · cases hSkips.boundary with
      | finished hEnd => exact .inl hEnd
      | semicolon hSemicolon hNesting =>
        exact .inr (.inl ⟨hSemicolon, allClosed_of_nestingAlong hNesting⟩)
      | last hLast => exact .inr (.inr (.inl hLast))
      | ownBrace hDepth hNext hNesting =>
        refine .inr (.inr (.inr ⟨(depth_recover c) ▸ hDepth, hNext, allClosed_of_nestingAlong ?_⟩))
        rw [nestingAlong_append]
        exact hNesting
    · have hWithin := hSkips.closesWithin hDepth
      exact ⟨hWithin.of_append, fun _ => hWithin⟩

/-- In `if (a) { ({ b; } }` the statement in the block breaks off on a second opening brace.
Recovery passes that brace and the semicolon behind it, and stops on its partner, before the
closing brace of the block. -/
theorem recover_within_block_nested :
    ∃ c : Cursor,
      (parse [⟨.ifWord, "if"⟩, ⟨.leftParen, "("⟩, ⟨.identifier, "a"⟩, ⟨.rightParen, ")"⟩,
        ⟨.leftBrace, "\x7b"⟩, ⟨.leftParen, "("⟩, ⟨.leftBrace, "\x7b"⟩, ⟨.identifier, "b"⟩,
        ⟨.semicolon, ";"⟩, ⟨.rightBrace, "\x7d"⟩, ⟨.rightBrace, "\x7d"⟩]).abandoned = [c] ∧
      0 < c.depth ∧ c.recover.value = false ∧ c.recover.cursor.upcoming.kind = .rightBrace ∧
      ∃ skipped, c.tokens = skipped ++ c.recover.cursor.tokens ∧
        AllClosed (skipped ++ [c.recover.cursor.current]) ∧
        c.ClosesWithin (skipped ++ [c.recover.cursor.current]) := by
  let c : Cursor :=
    ⟨[⟨.leftBrace, "\x7b"⟩, ⟨.identifier, "b"⟩, ⟨.semicolon, ";"⟩, ⟨.rightBrace, "\x7d"⟩,
      ⟨.rightBrace, "\x7d"⟩], 6, 1, none⟩
  have hInside : 0 < c.depth := by decide
  have hValue : c.recover.value = false := by decide +kernel
  obtain ⟨-, -, ⟨skipped, hTokens, -, hStop, hBraces⟩, -⟩ := recover_within_block c
  have hClosed : AllClosed (skipped ++ [c.recover.cursor.current]) := by
    rcases hStop hValue with hEnd | ⟨hSemicolon, -⟩ | hLast | ⟨-, -, hClosed⟩
    · exact absurd hEnd (by decide +kernel)
    · exact absurd hSemicolon (by decide +kernel)
    · exact absurd hLast (by decide +kernel)
    · exact hClosed
  exact ⟨c, by decide +kernel, hInside, hValue, by decide +kernel, skipped, hTokens, hClosed,
    (hBraces hInside).2 hValue⟩

end Cursor

end MonkeyLang
