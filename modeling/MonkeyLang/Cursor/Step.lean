import MonkeyLang.Cursor
import MonkeyLang.Diagnostic

/-!
# Steps of a cursor

A step from a cursor `c` is what reading some tokens from `c` on yields: a value, the cursor it
ends on, and what was reported on the way. A step never ends before the place it started from,
and that fact is part of it, so recursions that go on from the end of a step terminate.

An attempt is a step whose value may be missing. A missing value means that the construct being
read is malformed, which has been reported.

* `Step.bind` runs one step after another, `Attempt.andThen` does so if the first one succeeds.
* `Cursor.expect` reads a required token.
-/

namespace MonkeyLang

/-- What reading from the cursor `c` on yields. `abandoned` lists, in order, the places where a
malformed statement was given up. -/
structure Step (c : Cursor) (α : Type) where
  value : α
  cursor : Cursor
  diagnostics : List Diagnostic
  abandoned : List Cursor
  remaining_le : cursor.remaining ≤ c.remaining

/-- A step that may fail. -/
abbrev Attempt (c : Cursor) (α : Type) : Type :=
  Step c (Option α)

namespace Step

variable {c : Cursor} {α β : Type}

/-- The step that stays where it is. -/
def stay (value : α) : Step c α :=
  ⟨value, c, [], [], Nat.le_refl _⟩

/-- The step that ends on a given cursor and reports nothing. -/
def goto (value : α) (c' : Cursor) (h : c'.remaining ≤ c.remaining := by simp) : Step c α :=
  ⟨value, c', [], [], h⟩

/-- The attempt that fails where it is, for a given reason. -/
def fail (reason : Diagnostic) : Attempt c α :=
  ⟨none, c, [reason], [], Nat.le_refl _⟩

/-- A step from the next token is a step from the current one. -/
def advancing (s : Step c.advance α) : Step c α :=
  { s with remaining_le := Nat.le_trans s.remaining_le (by simp) }

/-- A step inside a block is a step over it, which leaves the block however it ends. -/
def inBlock (s : Step c.enterBlock α) : Step c α :=
  { s with
    cursor := s.cursor.leaveBlock
    remaining_le := Nat.le_trans s.remaining_le (by simp) }

/-- Changes the value of a step. -/
def map (f : α → β) (s : Step c α) : Step c β :=
  { s with value := f s.value }

/-- Goes on from where a step ended. -/
def bind (s : Step c α) (f : α → (c' : Cursor) → c'.remaining ≤ c.remaining → Step c' β) :
    Step c β :=
  let t := f s.value s.cursor s.remaining_le
  ⟨t.value, t.cursor, s.diagnostics ++ t.diagnostics, s.abandoned ++ t.abandoned,
    Nat.le_trans t.remaining_le s.remaining_le⟩

/-! ### Parts of a step -/

@[simp] theorem value_stay (v : α) : (stay v : Step c α).value = v := rfl

@[simp] theorem cursor_stay (v : α) : (stay v : Step c α).cursor = c := rfl

@[simp] theorem diagnostics_stay (v : α) : (stay v : Step c α).diagnostics = [] := rfl

@[simp] theorem abandoned_stay (v : α) : (stay v : Step c α).abandoned = [] := rfl

@[simp] theorem value_goto (v : α) (c' : Cursor) (h) : (goto v c' h : Step c α).value = v := rfl

@[simp] theorem cursor_goto (v : α) (c' : Cursor) (h) : (goto v c' h : Step c α).cursor = c' := rfl

@[simp] theorem diagnostics_goto (v : α) (c' : Cursor) (h) :
    (goto v c' h : Step c α).diagnostics = [] := rfl

@[simp] theorem abandoned_goto (v : α) (c' : Cursor) (h) :
    (goto v c' h : Step c α).abandoned = [] := rfl

@[simp] theorem value_fail (d : Diagnostic) : (fail d : Attempt c α).value = none := rfl

@[simp] theorem cursor_fail (d : Diagnostic) : (fail d : Attempt c α).cursor = c := rfl

@[simp] theorem diagnostics_fail (d : Diagnostic) : (fail d : Attempt c α).diagnostics = [d] := rfl

@[simp] theorem abandoned_fail (d : Diagnostic) : (fail d : Attempt c α).abandoned = [] := rfl

@[simp] theorem value_advancing (s : Step c.advance α) : s.advancing.value = s.value := rfl

@[simp] theorem cursor_advancing (s : Step c.advance α) : s.advancing.cursor = s.cursor := rfl

@[simp] theorem diagnostics_advancing (s : Step c.advance α) :
    s.advancing.diagnostics = s.diagnostics := rfl

@[simp] theorem abandoned_advancing (s : Step c.advance α) :
    s.advancing.abandoned = s.abandoned := rfl

@[simp] theorem value_inBlock (s : Step c.enterBlock α) : s.inBlock.value = s.value := rfl

@[simp] theorem cursor_inBlock (s : Step c.enterBlock α) :
    s.inBlock.cursor = s.cursor.leaveBlock := rfl

@[simp] theorem diagnostics_inBlock (s : Step c.enterBlock α) :
    s.inBlock.diagnostics = s.diagnostics := rfl

@[simp] theorem abandoned_inBlock (s : Step c.enterBlock α) :
    s.inBlock.abandoned = s.abandoned := rfl

@[simp] theorem value_map (f : α → β) (s : Step c α) : (s.map f).value = f s.value := rfl

@[simp] theorem cursor_map (f : α → β) (s : Step c α) : (s.map f).cursor = s.cursor := rfl

@[simp] theorem diagnostics_map (f : α → β) (s : Step c α) :
    (s.map f).diagnostics = s.diagnostics := rfl

@[simp] theorem abandoned_map (f : α → β) (s : Step c α) :
    (s.map f).abandoned = s.abandoned := rfl

section bind

variable (s : Step c α) (f : α → (c' : Cursor) → c'.remaining ≤ c.remaining → Step c' β)

@[simp] theorem value_bind :
    (s.bind f).value = (f s.value s.cursor s.remaining_le).value := rfl

@[simp] theorem cursor_bind :
    (s.bind f).cursor = (f s.value s.cursor s.remaining_le).cursor := rfl

@[simp] theorem diagnostics_bind :
    (s.bind f).diagnostics =
      s.diagnostics ++ (f s.value s.cursor s.remaining_le).diagnostics := rfl

@[simp] theorem abandoned_bind :
    (s.bind f).abandoned = s.abandoned ++ (f s.value s.cursor s.remaining_le).abandoned := rfl

end bind

end Step

namespace Attempt

variable {c : Cursor} {α β : Type}

/-- Goes on from where an attempt ended if it succeeded, and fails with it otherwise. -/
def andThen (s : Attempt c α)
    (f : α → (c' : Cursor) → c'.remaining ≤ c.remaining → Attempt c' β) : Attempt c β :=
  Step.bind s fun value c' h =>
    match value with
    | some a => f a c' h
    | none => .stay none

/-- Changes the value of an attempt that succeeds. -/
def mapValue (f : α → β) (s : Attempt c α) : Attempt c β :=
  Step.map (Option.map f) s

theorem andThen_of_some {s : Attempt c α} {a : α} (hs : s.value = some a)
    (f : α → (c' : Cursor) → c'.remaining ≤ c.remaining → Attempt c' β) :
    s.andThen f = Step.bind s fun _ c' h => f a c' h := by
  obtain ⟨_, _, _, _, _⟩ := s
  cases hs
  rfl

theorem andThen_of_none {s : Attempt c α} (hs : s.value = none)
    (f : α → (c' : Cursor) → c'.remaining ≤ c.remaining → Attempt c' β) :
    s.andThen f = Step.map (fun _ => none) s := by
  obtain ⟨_, _, _, _, _⟩ := s
  cases hs
  simp [andThen, Step.bind, Step.map, Step.stay]

end Attempt

namespace Cursor

/-- Moves on to the next token if it is of the required kind. -/
def expect (c : Cursor) (kind : Token.Kind) : Attempt c Unit :=
  if c.upcoming.kind = kind then
    .goto (some ()) c.advance
  else
    .fail (.expectedToken kind c.upcoming.kind)

/-- Ends a statement on its last token, which is the semicolon if one follows. -/
def endStatement {α : Type} (c : Cursor) (value : α) : Attempt c α :=
  if c.upcoming.kind = .semicolon then
    .goto (some value) c.advance
  else
    .stay (some value)

end Cursor

end MonkeyLang
