import MonkeyLang.Proofs.Written
import MonkeyLang.Proofs.Yields

/-!
# What reading keeps

An attempt that succeeds has taken tokens and may have left some of them out. What is kept writes
the value it yields; nothing is left out unless something is reported.

Tokens are left out inside a block or a program, where a statement is given up. A statement that
is given up does not join its neighbours: either nothing follows it, or the semicolon it ends
with can be kept to separate them.

* `Attempt.Keeps` : the postcondition of an attempt that succeeds, with one rule for each way to
  build attempts.
* `StatementKept` : what is kept of a statement, and how it ends.
* `Salvaged` : statements that can be written with what is kept of a region, with one rule for
  each way in which a list of statements goes on.
-/

namespace MonkeyLang

open Cursor

/-! ## Keeping tokens -/

/-- Some of the tokens are kept, and all of them if nothing is reported. -/
structure Kept (ds : List Diagnostic) (passed kept : List Token) : Prop where
  sublist : kept.Sublist passed
  all : ds = [] → kept = passed

namespace Kept

variable {ds es : List Diagnostic} {passed kept passed' kept' : List Token}

theorem refl (ds : List Diagnostic) (ts : List Token) : Kept ds ts ts :=
  ⟨List.Sublist.refl ts, fun _ => rfl⟩

theorem append (h : Kept ds passed kept) (h' : Kept es passed' kept') :
    Kept (ds ++ es) (passed ++ passed') (kept ++ kept') where
  sublist := h.sublist.append h'.sublist
  all hNil := by
    obtain ⟨hFirst, hSecond⟩ := List.append_eq_nil_iff.mp hNil
    rw [h.all hFirst, h'.all hSecond]

theorem cons (t : Token) (h : Kept ds passed kept) : Kept ds (t :: passed) (t :: kept) :=
  (refl [] [t]).append h

end Kept

/-- If the attempt succeeds, then some of the tokens it has taken from those ahead satisfy the
postcondition, together with its value and the cursor it ends on. -/
def Attempt.Keeps {c : Cursor} {α : Type} (s : Attempt c α) (ahead : List Token)
    (W : α → Cursor → List Token → Prop) : Prop :=
  (∀ t ∈ ahead, t.kind ≠ .endOfInput) → ∀ v, s.value = some v →
    ∃ passed kept, ahead = passed ++ s.cursor.tokens.tail ∧ Kept s.diagnostics passed kept ∧
      W v s.cursor kept

namespace Attempt.Keeps

variable {c : Cursor} {α β : Type} {ahead : List Token}

theorem mono {s : Attempt c α} {U W : α → Cursor → List Token → Prop} (h : s.Keeps ahead U)
    (hWeaker : ∀ v c' ts, U v c' ts → W v c' ts) : s.Keeps ahead W := by
  intro hPlain v hValue
  obtain ⟨passed, kept, hAhead, hKept, hPost⟩ := h hPlain v hValue
  exact ⟨passed, kept, hAhead, hKept, hWeaker _ _ _ hPost⟩

theorem stay {W : α → Cursor → List Token → Prop} {v : α} (h : W v c []) :
    Attempt.Keeps (.stay (some v) : Attempt c α) c.tokens.tail W := by
  rintro - _ ⟨⟩
  exact ⟨[], [], rfl, .refl _ _, h⟩

theorem fail (d : Diagnostic) (W : α → Cursor → List Token → Prop) :
    Attempt.Keeps (.fail d : Attempt c α) ahead W := by
  rintro - _ ⟨⟩

theorem advancing {s : Attempt c.advance α} {W : α → Cursor → List Token → Prop}
    (h : s.Keeps ahead W) : Attempt.Keeps (.advancing s : Attempt c α) ahead W :=
  h

theorem mapValue {s : Attempt c α} {f : α → β} {W : β → Cursor → List Token → Prop}
    (h : s.Keeps ahead fun v c' ts => W (f v) c' ts) : (s.mapValue f).Keeps ahead W := by
  intro hPlain w hValue
  obtain ⟨v, hv, rfl⟩ := Option.map_eq_some_iff.mp hValue
  exact h hPlain v hv

/-- The current token in front of what is read behind it. -/
theorem current {s : Attempt c α} {W : α → Cursor → List Token → Prop}
    (hEnd : c.current.kind ≠ .endOfInput)
    (h : s.Keeps c.tokens.tail fun v c' ts => W v c' (c.current :: ts)) :
    s.Keeps c.tokens W := by
  intro hPlain v hValue
  rw [tokens_eq_cons hEnd] at hPlain ⊢
  obtain ⟨passed, kept, hAhead, hKept, hPost⟩ :=
    h (fun t ht => hPlain t (List.mem_cons_of_mem _ ht)) v hValue
  refine ⟨c.current :: passed, c.current :: kept, ?_, hKept.cons _, hPost⟩
  rw [hAhead, List.cons_append]

theorem andThen {s : Attempt c α}
    {f : α → (c' : Cursor) → c'.remaining ≤ c.remaining → Attempt c' β}
    {U : α → Cursor → List Token → Prop} {W : β → Cursor → List Token → Prop}
    (hs : s.Keeps ahead U)
    (hf : ∀ u c' h ts, U u c' ts →
      (f u c' h).Keeps c'.tokens.tail fun w c'' us => W w c'' (ts ++ us)) :
    (s.andThen f).Keeps ahead W := by
  intro hPlain w hValue
  cases hFirst : s.value with
  | none =>
    rw [andThen_of_none hFirst] at hValue
    cases hValue
  | some u =>
    rw [andThen_of_some hFirst] at hValue ⊢
    obtain ⟨passed, kept, rfl, hKept, hPost⟩ := hs hPlain u hFirst
    obtain ⟨passed', kept', hAhead, hKept', hPost'⟩ := hf u s.cursor s.remaining_le kept hPost
      (fun t ht => hPlain t (List.mem_append_right _ ht)) w hValue
    refine ⟨passed ++ passed', kept ++ kept', ?_, hKept.append hKept', hPost'⟩
    rw [hAhead, List.append_assoc]
    rfl

theorem expect (c : Cursor) {kind : Token.Kind} (hKind : kind ≠ .endOfInput) :
    (c.expect kind).Keeps c.tokens.tail fun _ c' ts =>
      c' = c.advance ∧ c.upcoming.kind = kind ∧ ts = [c.upcoming] := by
  intro _ v hValue
  by_cases hNext : c.upcoming.kind = kind
  · have hExpect : c.expect kind = .goto (some ()) c.advance := if_pos hNext
    rw [hExpect]
    exact ⟨[c.upcoming], [c.upcoming], (Passes.advance (hNext ▸ hKind)).passed, .refl _ _, rfl,
      hNext, rfl⟩
  · unfold Cursor.expect at hValue
    rw [if_neg hNext] at hValue
    cases hValue

/-- What ends a statement. -/
theorem endStatement (c : Cursor) (v : α) :
    (c.endStatement v).Keeps c.tokens.tail fun w c' ts => w = v ∧
      ((ts = [] ∧ c' = c) ∨ ∃ t, ts = [t] ∧ t.kind = .semicolon) := by
  intro _ w hValue
  unfold Cursor.endStatement at hValue ⊢
  by_cases hNext : c.upcoming.kind = .semicolon
  · have hEnd : c.upcoming.kind ≠ .endOfInput := by rw [hNext]; decide
    rw [if_pos hNext] at hValue ⊢
    cases hValue
    exact ⟨[c.upcoming], [c.upcoming], (Passes.advance hEnd).passed, .refl _ _, rfl,
      .inr ⟨_, rfl, hNext⟩⟩
  · rw [if_neg hNext] at hValue ⊢
    cases hValue
    exact ⟨[], [], rfl, .refl _ _, rfl, .inl ⟨rfl, rfl⟩⟩

end Attempt.Keeps

/-! ## Statements in a region -/

/-- The tokens kept for a statement, and what ends it: a semicolon, or nothing where no operator
follows. -/
def StatementKept (first : Token) (s : Statement) (c' : Cursor) (kept : List Token) : Prop :=
  ∃ ts gap, kept = ts ++ gap ∧ ts.head? = some first ∧ Written (.statement s) ts ∧
    ((gap = [] ∧ NoOperator c'.tokens.tail) ∨ ∃ t, gap = [t] ∧ t.kind = .semicolon)

/-- The statements can be written with tokens of the region, by themselves and behind another
statement which no operator follows. -/
structure Salvaged (ss : List Statement) (ds : List Diagnostic) (region : List Token) : Prop where
  alone : ∃ kept, Kept ds region kept ∧ Written (.statements ss) kept
  behind : NoOperator region → ∀ s ts, Written (.statement s) ts →
    ∃ kept, Kept ds region kept ∧ Written (.statements (s :: ss)) (ts ++ kept)

namespace Salvaged

variable {ss : List Statement} {ds es : List Diagnostic} {passed region : List Token}

/-- Nothing has to be kept at the end of a region. -/
theorem nil (h : ds = [] → region = []) : Salvaged [] ds region where
  alone := ⟨[], ⟨List.nil_sublist _, fun hNil => (h hNil).symm⟩, .noStatement⟩
  behind _ _ _ hStatement :=
    ⟨[], ⟨List.nil_sublist _, fun hNil => (h hNil).symm⟩, .juxtaposed rfl hStatement .noStatement⟩

/-- A statement that has been given up is left out, up to its semicolon. -/
theorem skip (hReported : ds ≠ []) (passed : List Token) {t : Token} (ht : t.kind = .semicolon)
    (h : Salvaged ss es region) : Salvaged ss (ds ++ es) (passed ++ t :: region) := by
  have hSome : ds ++ es ≠ [] := fun hNil => hReported (List.append_eq_nil_iff.mp hNil).1
  obtain ⟨kept, hKept, hWritten⟩ := h.alone
  have hSublist : (t :: kept).Sublist (passed ++ t :: region) :=
    (hKept.sublist.cons_cons t).trans (List.sublist_append_right _ _)
  refine ⟨⟨kept, ⟨(List.sublist_cons_self t kept).trans hSublist, ?_⟩, hWritten⟩, ?_⟩
  · exact fun hNil => absurd hNil hSome
  · intro _ s ts hStatement
    exact ⟨t :: kept, ⟨hSublist, fun hNil => absurd hNil hSome⟩,
      .closed ht hStatement hWritten⟩

/-- A statement that has been read, in front of others. -/
theorem cons {first : Token} {s : Statement} {c' : Cursor} {kept rest : List Token}
    (hKept : Kept ds passed kept) (hFirst : passed.head? = some first)
    (hPost : StatementKept first s c' kept) (hAhead : c'.tokens.tail = region ++ rest)
    (h : Salvaged ss es region) : Salvaged (s :: ss) (ds ++ es) (passed ++ region) := by
  obtain ⟨ts, gap, rfl, hHead, hStatement, hGap⟩ := hPost
  have hAlone : ∃ more, Kept es region more ∧
      Written (.statements (s :: ss)) (ts ++ gap ++ more) := by
    rcases hGap with ⟨rfl, hNext⟩ | ⟨t, rfl, ht⟩
    · rw [hAhead] at hNext
      rw [List.append_nil]
      exact h.behind hNext.of_append s ts hStatement
    · obtain ⟨more, hMore, hWritten⟩ := h.alone
      refine ⟨more, hMore, ?_⟩
      rw [← List.append_cons]
      exact .closed ht hStatement hWritten
  obtain ⟨more, hMore, hWritten⟩ := hAlone
  refine ⟨⟨_, hKept.append hMore, hWritten⟩, fun hNext s' us hStatement' => ?_⟩
  refine ⟨_, hKept.append hMore, .juxtaposed ?_ hStatement' hWritten⟩
  obtain ⟨passed', rfl⟩ := List.head?_eq_some_iff.mp hFirst
  obtain ⟨ts', rfl⟩ := List.head?_eq_some_iff.mp hHead
  exact hNext

end Salvaged

end MonkeyLang
