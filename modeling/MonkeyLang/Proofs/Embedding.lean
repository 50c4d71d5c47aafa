import MonkeyLang.Cursor.Recovery

/-!
# A part of a text

A part can be parsed alone, up to the end of input, or inside a larger text, where other tokens
follow it and further blocks are open around it. `Embedding` says what must be known of the
tokens that are left so that a reader of the part cannot tell the difference, except that
another token may take the place of the end of input.

Two cursors are compared, one in the part alone and one in the larger text:

* `Embedding.At` : both stand before the same token.
* `Embedding.Behind` : both stand on the last token of what has been read.
* `Embedding.Between` : both stand between two statements.
* `Embedding.Stuck` : both stand where a malformed construct has been found, or further on.

How the two move on together is stated for each way in which a cursor moves.
-/

namespace MonkeyLang

open Cursor

/-! ## The block closed last -/

namespace Cursor

/-- The block closed last was closed before the current token. -/
def Fresh (c : Cursor) : Prop :=
  ∀ p ∈ c.lastClose, p < c.position

/-- The block closed last was closed on the current token or before it. -/
def Settled (c : Cursor) : Prop :=
  ∀ p ∈ c.lastClose, p ≤ c.position

/-- The current token has closed a block. -/
def JustClosed (c : Cursor) : Prop :=
  c.lastClose = some c.position

theorem fresh_start (ts : List Token) : (start ts).Fresh := by
  intro p hp
  cases hp

variable {c : Cursor}

theorem Fresh.settled (h : c.Fresh) : c.Settled :=
  fun p hp => Nat.le_of_lt (h p hp)

theorem Fresh.not_justClosed (h : c.Fresh) : ¬ c.JustClosed :=
  fun hClosed => Nat.lt_irrefl _ (h _ hClosed)

theorem Settled.advance (h : c.Settled) : c.advance.Fresh :=
  fun p hp => Nat.lt_succ_of_le (h p hp)

theorem settled_closeBlock : c.closeBlock.Settled := by
  intro p hp
  cases hp
  exact Nat.le_refl _

/-- The brace of the enclosing block is a closing one that has not closed a block before. -/
theorem atOwnBrace_iff :
    c.atOwnBrace = true ↔ c.current.kind = .rightBrace ∧ 0 < c.depth ∧ ¬ c.JustClosed := by
  simp [atOwnBrace, JustClosed, and_assoc]

end Cursor

/-! ## Embeddings -/

/-- What it takes to read a part of a text as if it stood alone. `inside` is what is known of
the tokens of the part that are left, by the number of blocks that are open in it. -/
structure Embedding where
  /-- The tokens after the part. -/
  following : List Token
  /-- The number of blocks that are open around the part. -/
  lift : Nat
  /-- The kind that takes the place of the end of input. -/
  finish : Token.Kind
  inside : Nat → List Token → Prop
  finish_eq : finish = .endOfInput ∨ finish = .rightBrace
  pass : ∀ {depth t ts}, inside depth (t :: ts) → t.kind ≠ .semicolon →
    inside (nestingAfter depth t.kind) ts
  /-- The part may end with a statement, but not in a block. -/
  terminate : ∀ {depth t ts}, inside depth (t :: ts) → t.kind = .semicolon →
    inside depth ts ∨ depth = 0 ∧ ts = []
  /-- The part does not close a block that is open around it. -/
  guarded : ∀ {t ts}, inside 0 (t :: ts) → t.kind = .rightBrace → lift = 0
  /-- The part may break off only at the end of the text or of the block it stands in. -/
  exhausted : ∀ {depth}, inside depth [] →
    (following = [] ∧ finish = .endOfInput ∧ ∀ depth', inside depth' []) ∨
      (depth = 0 ∧ 0 < lift ∧ finish = .rightBrace ∧ firstKind following = .rightBrace)

namespace Embedding

variable (E : Embedding)

/-- The cursors `a` in the part and `b` in the larger text are at the same place. -/
structure Aligned (a b : Cursor) : Prop where
  tokens : b.tokens = a.tokens ++ E.following
  depth : b.depth = a.depth + E.lift
  plain : ∀ t ∈ a.tokens, t.kind ≠ .endOfInput

/-- Both cursors stand before the same token, where `nesting` braces have been opened besides
the open blocks. -/
structure At (nesting : Nat) (a b : Cursor) : Prop extends E.Aligned a b where
  inside : E.inside (a.depth + nesting) a.tokens
  fresh : a.Fresh
  freshAbove : b.Fresh

/-- Both cursors stand on the last token of what has been read. If that is a closing brace, its
block has been closed. -/
structure Behind (a b : Cursor) : Prop extends E.Aligned a b where
  nonempty : a.tokens ≠ []
  inside : E.inside a.depth a.tokens.tail
  not_semicolon : a.current.kind ≠ .semicolon
  not_leftBrace : a.current.kind ≠ .leftBrace
  closed : a.current.kind = .rightBrace → a.JustClosed ∧ b.JustClosed
  settled : a.Settled
  settledAbove : b.Settled

/-- Both cursors stand between two statements, or where the part ends. -/
structure Between (a b : Cursor) : Prop extends E.Aligned a b where
  inside : E.inside a.depth a.tokens ∨ a.depth = 0 ∧ a.tokens = []
  fresh : a.Fresh
  freshAbove : b.Fresh

/-- Both cursors stand where a malformed construct has been found, or on the way from there to
the end of the statement. -/
def Stuck (nesting : Nat) (a b : Cursor) : Prop :=
  E.At nesting a b ∨ nesting = 0 ∧ E.Behind a b

end Embedding

/-! ## What both cursors see -/

/-- A kind of token, where the end of input is taken for another kind. -/
def Token.Kind.replaceEnd (kind finish : Token.Kind) : Token.Kind :=
  if kind = .endOfInput then finish else kind

theorem Token.Kind.replaceEnd_endOfInput (finish : Token.Kind) :
    Token.Kind.replaceEnd .endOfInput finish = finish := rfl

theorem Token.Kind.replaceEnd_of_ne {kind : Token.Kind} (finish : Token.Kind)
    (h : kind ≠ .endOfInput) : kind.replaceEnd finish = kind :=
  if_neg h

namespace Embedding

variable {E : Embedding} {a b : Cursor} {nesting : Nat}

theorem Aligned.current_eq (h : E.Aligned a b) (hEnd : a.current.kind ≠ .endOfInput) :
    b.current = a.current := by
  have hTokens := h.tokens
  rw [tokens_eq_cons hEnd] at hTokens
  exact Cursor.current_eq hTokens

/-- Both cursors advance to the same place, unless only the part is over. -/
theorem Aligned.advance (h : E.Aligned a b) (hNext : a.tokens ≠ [] ∨ E.following = []) :
    E.Aligned a.advance b.advance where
  tokens := by
    show b.tokens.tail = a.tokens.tail ++ E.following
    rw [h.tokens]
    rcases hNext with hNext | hNext
    · exact List.tail_append_of_ne_nil hNext
    · rw [hNext, List.append_nil, List.append_nil]
  depth := h.depth
  plain t ht := h.plain t (List.mem_of_mem_tail ht)

theorem Aligned.closeBlock (h : E.Aligned a b) : E.Aligned a.closeBlock b.closeBlock :=
  ⟨h.tokens, h.depth, h.plain⟩

theorem Aligned.leaveBlock (h : E.Aligned a b) (hDepth : 0 < a.depth) :
    E.Aligned a.leaveBlock b.leaveBlock where
  tokens := h.tokens
  depth := by
    show b.depth - 1 = a.depth - 1 + E.lift
    have := h.depth
    omega
  plain := h.plain

theorem At.inside_nil (h : E.At nesting a b) (hEnd : a.current.kind = .endOfInput) :
    E.inside (a.depth + nesting) [] :=
  tokens_eq_nil h.plain hEnd ▸ h.inside

/-- Where the part ends the larger text has the token that follows. -/
theorem At.current_kind (h : E.At nesting a b) :
    b.current.kind = a.current.kind.replaceEnd E.finish := by
  by_cases hEnd : a.current.kind = .endOfInput
  · have hFollowing : firstKind E.following = E.finish := by
      rcases E.exhausted (h.inside_nil hEnd) with ⟨hNil, hFinish, -⟩ | ⟨-, -, hFinish, hBrace⟩
      · rw [hNil, hFinish]
        rfl
      · rw [hBrace, hFinish]
    show firstKind b.tokens = _
    rw [h.tokens, tokens_eq_nil h.plain hEnd, hEnd]
    exact hFollowing
  · rw [h.current_eq hEnd, Token.Kind.replaceEnd_of_ne _ hEnd]

/-- Inside a block the part has not ended, or the whole text has. -/
theorem At.current_kind_of_depth (h : E.At nesting a b) (hDepth : 0 < a.depth) :
    b.current.kind = a.current.kind := by
  by_cases hEnd : a.current.kind = .endOfInput
  · rcases E.exhausted (h.inside_nil hEnd) with ⟨-, hFinish, -⟩ | ⟨hZero, -⟩
    · rw [h.current_kind, hEnd, hFinish]
      rfl
    · omega
  · rw [h.current_eq hEnd]

/-! ## Moving on -/

theorem At.inside_cons (h : E.At nesting a b) (hEnd : a.current.kind ≠ .endOfInput) :
    E.inside (a.depth + nesting) (a.current :: a.tokens.tail) := by
  have hInside := h.inside
  rwa [tokens_eq_cons hEnd] at hInside

theorem At.advance_aligned (h : E.At nesting a b) (hEnd : a.current.kind ≠ .endOfInput) :
    E.Aligned a.advance b.advance :=
  h.toAligned.advance (.inl (tokens_ne_nil hEnd))

/-- A token that is no brace and does not end a statement has been read. -/
theorem At.behind (h : E.At 0 a b) (hEnd : a.current.kind ≠ .endOfInput)
    (hSemicolon : a.current.kind ≠ .semicolon) (hOpen : a.current.kind ≠ .leftBrace)
    (hClose : a.current.kind ≠ .rightBrace) : E.Behind a b where
  toAligned := h.toAligned
  nonempty := tokens_ne_nil hEnd
  inside := by
    have hPass := E.pass (h.inside_cons hEnd) hSemicolon
    rwa [nestingAfter_of_ne _ hOpen hClose] at hPass
  not_semicolon := hSemicolon
  not_leftBrace := hOpen
  closed hKind := absurd hKind hClose
  settled := h.fresh.settled
  settledAbove := h.freshAbove.settled

theorem Behind.advance (h : E.Behind a b) : E.At 0 a.advance b.advance where
  toAligned := h.toAligned.advance (.inl h.nonempty)
  inside := h.inside
  fresh := h.settled.advance
  freshAbove := h.settledAbove.advance

/-- The token that comes next is the same, but for the end of the part. -/
theorem Behind.upcoming_kind (h : E.Behind a b) :
    b.upcoming.kind = a.upcoming.kind.replaceEnd E.finish :=
  h.advance.current_kind

/-- A block of the part is entered in both texts. -/
theorem At.enterBlock (h : E.At 0 a b) (hKind : a.current.kind = .leftBrace) :
    E.At 0 a.enterBlock b.enterBlock := by
  have hEnd : a.current.kind ≠ .endOfInput := by rw [hKind]; decide
  have hAligned := h.advance_aligned hEnd
  have hPass := E.pass (h.inside_cons hEnd) (by rw [hKind]; decide)
  rw [hKind] at hPass
  have hDepth := h.depth
  exact {
    tokens := hAligned.tokens
    depth := by
      show b.depth + 1 = a.depth + 1 + E.lift
      omega
    plain := hAligned.plain
    inside := hPass
    fresh := h.fresh.settled.advance
    freshAbove := h.freshAbove.settled.advance }

/-- A block of the part is closed and left in both texts. -/
theorem At.closeBlock (h : E.At 0 a b) (hKind : a.current.kind = .rightBrace)
    (hDepth : 0 < a.depth) :
    E.Behind a.closeBlock.leaveBlock b.closeBlock.leaveBlock := by
  have hEnd : a.current.kind ≠ .endOfInput := by rw [hKind]; decide
  have hPass := E.pass (h.inside_cons hEnd) (by rw [hKind]; decide)
  rw [hKind] at hPass
  exact {
    toAligned := h.toAligned.closeBlock.leaveBlock hDepth
    nonempty := tokens_ne_nil hEnd
    inside := hPass
    not_semicolon := by
      show a.current.kind ≠ .semicolon
      rw [hKind]
      decide
    not_leftBrace := by
      show a.current.kind ≠ .leftBrace
      rw [hKind]
      decide
    closed := fun _ => ⟨rfl, rfl⟩
    settled := settled_closeBlock
    settledAbove := settled_closeBlock }

/-- A block that is never closed is left where the text ends. -/
theorem At.leaveBlock (h : E.At 0 a b) (hEnd : a.current.kind = .endOfInput)
    (hDepth : 0 < a.depth) : E.At 0 a.leaveBlock b.leaveBlock where
  toAligned := h.toAligned.leaveBlock hDepth
  inside := by
    show E.inside (a.depth - 1 + 0) a.tokens
    rw [tokens_eq_nil h.plain hEnd]
    rcases E.exhausted (h.inside_nil hEnd) with ⟨-, -, hAll⟩ | ⟨hZero, -⟩
    · exact hAll _
    · omega
  fresh := h.fresh
  freshAbove := h.freshAbove

theorem At.between (h : E.At 0 a b) : E.Between a b where
  toAligned := h.toAligned
  inside := .inl h.inside
  fresh := h.fresh
  freshAbove := h.freshAbove

/-- Between two statements of a block the part has not ended. -/
theorem Between.at_of_depth (h : E.Between a b) (hDepth : 0 < a.depth) : E.At 0 a b where
  toAligned := h.toAligned
  inside := h.inside.resolve_right fun hZero => Nat.ne_of_gt hDepth hZero.1
  fresh := h.fresh
  freshAbove := h.freshAbove

theorem Between.at_of_kind (h : E.Between a b) (hEnd : a.current.kind ≠ .endOfInput) :
    E.At 0 a b where
  toAligned := h.toAligned
  inside := by
    refine h.inside.resolve_right fun hNil => hEnd ?_
    show firstKind a.tokens = .endOfInput
    rw [hNil.2]
    rfl
  fresh := h.fresh
  freshAbove := h.freshAbove

/-- The statement that a semicolon ends is followed by another one, or the part ends. -/
theorem At.between_of_semicolon (h : E.At 0 a b) (hKind : a.current.kind = .semicolon) :
    E.Between a.advance b.advance := by
  have hEnd : a.current.kind ≠ .endOfInput := by rw [hKind]; decide
  exact {
    toAligned := h.advance_aligned hEnd
    inside := E.terminate (h.inside_cons hEnd) hKind
    fresh := h.fresh.settled.advance
    freshAbove := h.freshAbove.settled.advance }

end Embedding

end MonkeyLang
