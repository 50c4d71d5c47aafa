import MonkeyLang.Token

/-!
# Cursors into a list of tokens

A cursor stands on its current token and sees the one after it. Past the last token it reads
`Token.finish` for ever. It also keeps what recovery from a malformed statement needs to know:
how many blocks are open and where the last block was closed.

* `remaining` is the number of tokens from the current one on. It never grows, and `advance`
  lowers it until it is zero; every recursion over a cursor ends by it.
-/

namespace MonkeyLang

/-- A place in a list of tokens. `position` counts the advances made so far, those past the end
included; `lastClose` is the position of the closing brace of the block closed last. -/
structure Cursor where
  tokens : List Token
  position : Nat
  depth : Nat
  lastClose : Option Nat
deriving DecidableEq, Repr, Inhabited

namespace Cursor

/-- The cursor on the first token of a list, outside all blocks. -/
def start (tokens : List Token) : Cursor :=
  ⟨tokens, 0, 0, none⟩

/-- The number of tokens from the current one on. -/
def remaining (c : Cursor) : Nat :=
  c.tokens.length

/-- The token the cursor stands on. -/
def current (c : Cursor) : Token :=
  c.tokens.headD Token.finish

/-- The token after the current one. -/
def upcoming (c : Cursor) : Token :=
  c.tokens.tail.headD Token.finish

/-- Moves on by one token. -/
def advance (c : Cursor) : Cursor :=
  { c with tokens := c.tokens.tail, position := c.position + 1 }

/-- Steps into a block, past its opening brace. -/
def enterBlock (c : Cursor) : Cursor :=
  { c.advance with depth := c.depth + 1 }

/-- Steps out of a block. -/
def leaveBlock (c : Cursor) : Cursor :=
  { c with depth := c.depth - 1 }

/-- Notes that the current token closes a block. -/
def closeBlock (c : Cursor) : Cursor :=
  { c with lastClose := some c.position }

/-- The current token is the closing brace of the innermost open block, and not that of a block
just closed. -/
def atOwnBrace (c : Cursor) : Bool :=
  c.current.kind = .rightBrace && 0 < c.depth && c.lastClose ≠ some c.position

theorem current_of_atOwnBrace {c : Cursor} (h : c.atOwnBrace = true) :
    c.current.kind = .rightBrace := by
  simp only [atOwnBrace, Bool.and_eq_true, decide_eq_true_eq] at h
  exact h.1.1

theorem depth_pos_of_atOwnBrace {c : Cursor} (h : c.atOwnBrace = true) : 0 < c.depth := by
  simp only [atOwnBrace, Bool.and_eq_true, decide_eq_true_eq] at h
  exact h.1.2

/-! ## How much is left -/

@[simp] theorem remaining_start (ts : List Token) : (start ts).remaining = ts.length := rfl

@[simp] theorem remaining_advance (c : Cursor) : c.advance.remaining = c.remaining - 1 := by
  simp [advance, remaining]

theorem remaining_advance_le (c : Cursor) : c.advance.remaining ≤ c.remaining := by
  rw [remaining_advance]
  exact Nat.sub_le _ 1

@[simp] theorem remaining_enterBlock (c : Cursor) : c.enterBlock.remaining = c.remaining - 1 := by
  simp [enterBlock, advance, remaining]

@[simp] theorem remaining_leaveBlock (c : Cursor) : c.leaveBlock.remaining = c.remaining := rfl

@[simp] theorem remaining_closeBlock (c : Cursor) : c.closeBlock.remaining = c.remaining := rfl

theorem remaining_closeBlock_le (c : Cursor) : c.closeBlock.remaining ≤ c.remaining :=
  Nat.le_refl _

/-- Only the end of input stands past the last token. -/
theorem remaining_pos {c : Cursor} (h : c.current.kind ≠ .endOfInput) : 0 < c.remaining := by
  rcases c with ⟨_ | ⟨t, ts⟩, p, d, l⟩
  · exact absurd rfl h
  · exact Nat.succ_pos _

theorem one_lt_remaining {c : Cursor} (h : c.upcoming.kind ≠ .endOfInput) : 1 < c.remaining := by
  rcases c with ⟨_ | ⟨t, _ | ⟨u, ts⟩⟩, p, d, l⟩
  · exact absurd rfl h
  · exact absurd rfl h
  · exact Nat.succ_lt_succ (Nat.succ_pos _)

@[simp] theorem current_advance (c : Cursor) : c.advance.current = c.upcoming := rfl

/-! ## The tokens ahead -/

variable {c : Cursor}

theorem current_eq {t : Token} {ts : List Token} (h : c.tokens = t :: ts) :
    c.current = t := by
  rw [current, h]
  rfl

theorem upcoming_eq {t : Token} {ts : List Token} (h : c.tokens.tail = t :: ts) :
    c.upcoming = t := by
  rw [upcoming, h]
  rfl

/-- Behind the last token comes the end of input. -/
theorem upcoming_of_tail_eq_nil (h : c.tokens.tail = []) : c.upcoming.kind = .endOfInput := by
  rw [upcoming, h]
  rfl

theorem tokens_eq_cons (h : c.current.kind ≠ .endOfInput) :
    c.tokens = c.current :: c.tokens.tail := by
  obtain ⟨tokens, p, d, l⟩ := c
  match tokens with
  | [] => exact absurd rfl h
  | _ :: _ => rfl

theorem tokens_eq_cons_cons (h : c.upcoming.kind ≠ .endOfInput) :
    c.tokens = c.current :: c.upcoming :: c.tokens.tail.tail := by
  obtain ⟨tokens, p, d, l⟩ := c
  match tokens with
  | [] | [_] => exact absurd rfl h
  | _ :: _ :: _ => rfl

theorem tokens_ne_nil (h : c.current.kind ≠ .endOfInput) : c.tokens ≠ [] := by
  rw [tokens_eq_cons h]
  exact List.cons_ne_nil _ _

/-- Where no token is an end of input, the end of input is the end of the list. -/
theorem tokens_eq_nil (hPlain : ∀ t ∈ c.tokens, t.kind ≠ .endOfInput)
    (h : c.current.kind = .endOfInput) : c.tokens = [] := by
  obtain ⟨tokens, p, d, l⟩ := c
  match tokens with
  | [] => rfl
  | t :: _ => exact absurd h (hPlain t List.mem_cons_self)

end Cursor

end MonkeyLang
