import MonkeyLang.Tree.Parse

/-!
# What attempts yield

An attempt yields a value if it succeeds and reports nothing on the way. What an attempt yields
is settled by what its parts yield, for each way to build attempts; these equivalences are used
in both directions.

`Attempt.Succeeds` allows for reports on the way. It is stated for it how attempts are put
together, but not how they are taken apart.

`Cursor.Passes` follows the tokens a cursor moves over. It starts behind the current token, so
it fits what continues a phrase as well as what reads one.
-/

namespace MonkeyLang

/-! ## Values -/

/-- The attempt succeeds with the value `v` on the cursor `c'` and reports nothing. -/
structure Attempt.Yields {c : Cursor} {α : Type} (s : Attempt c α) (v : α) (c' : Cursor) :
    Prop where
  value : s.value = some v
  diagnostics : s.diagnostics = []
  cursor : s.cursor = c'

namespace Attempt

variable {c c' : Cursor} {α β : Type}

theorem yields_stay {v w : α} :
    Attempt.Yields (.stay (some v) : Attempt c α) w c' ↔ w = v ∧ c' = c := by
  constructor
  · rintro ⟨hValue, -, hCursor⟩
    exact ⟨(Option.some.inj hValue).symm, hCursor.symm⟩
  · rintro ⟨rfl, rfl⟩
    exact ⟨rfl, rfl, rfl⟩

theorem not_yields_fail {d : Diagnostic} {v : α} :
    ¬ Attempt.Yields (.fail d : Attempt c α) v c' :=
  fun h => nomatch h.value

theorem yields_advancing {s : Attempt c.advance α} {v : α} :
    Attempt.Yields (.advancing s : Attempt c α) v c' ↔ s.Yields v c' :=
  ⟨fun ⟨hValue, hDiagnostics, hCursor⟩ => ⟨hValue, hDiagnostics, hCursor⟩,
    fun ⟨hValue, hDiagnostics, hCursor⟩ => ⟨hValue, hDiagnostics, hCursor⟩⟩

theorem yields_inBlock {s : Attempt c.enterBlock α} {v : α} :
    Attempt.Yields (.inBlock s : Attempt c α) v c' ↔ ∃ d, s.Yields v d ∧ c' = d.leaveBlock := by
  constructor
  · rintro ⟨hValue, hDiagnostics, hCursor⟩
    exact ⟨s.cursor, ⟨hValue, hDiagnostics, rfl⟩, hCursor.symm⟩
  · rintro ⟨d, ⟨hValue, hDiagnostics, rfl⟩, rfl⟩
    exact ⟨hValue, hDiagnostics, rfl⟩

theorem yields_mapValue {s : Attempt c α} {f : α → β} {v : β} :
    (s.mapValue f).Yields v c' ↔ ∃ u, s.Yields u c' ∧ v = f u := by
  constructor
  · rintro ⟨hValue, hDiagnostics, hCursor⟩
    obtain ⟨u, hu, rfl⟩ := Option.map_eq_some_iff.mp hValue
    exact ⟨u, ⟨hu, hDiagnostics, hCursor⟩, rfl⟩
  · rintro ⟨u, ⟨hValue, hDiagnostics, hCursor⟩, rfl⟩
    refine ⟨?_, hDiagnostics, hCursor⟩
    change s.value.map f = some (f u)
    rw [hValue]
    rfl

/-- An attempt in two parts yields what the second part yields from the end of the first. -/
theorem yields_andThen {s : Attempt c α}
    {f : α → (d : Cursor) → d.remaining ≤ c.remaining → Attempt d β} {v : β} :
    (s.andThen f).Yields v c' ↔
      ∃ u d, ∃ h : d.remaining ≤ c.remaining, s.Yields u d ∧ (f u d h).Yields v c' := by
  constructor
  · rintro ⟨hValue, hDiagnostics, hCursor⟩
    cases hs : s.value with
    | none =>
      rw [andThen_of_none hs] at hValue
      cases hValue
    | some u =>
      rw [andThen_of_some hs] at hValue hDiagnostics hCursor
      obtain ⟨hFirst, hSecond⟩ := List.append_eq_nil_iff.mp hDiagnostics
      exact ⟨u, s.cursor, s.remaining_le, ⟨hs, hFirst, rfl⟩, ⟨hValue, hSecond, hCursor⟩⟩
  · rintro ⟨u, d, h, ⟨hs, hFirst, rfl⟩, ⟨hValue, hSecond, hCursor⟩⟩
    rw [andThen_of_some hs]
    refine ⟨hValue, ?_, hCursor⟩
    rw [Step.diagnostics_bind, hFirst, hSecond]
    rfl

theorem Yields.andThen {s : Attempt c α} {u : α} {d : Cursor} (hs : s.Yields u d)
    {f : α → (d : Cursor) → d.remaining ≤ c.remaining → Attempt d β} {v : β}
    (hf : ∀ h, (f u d h).Yields v c') : (s.andThen f).Yields v c' :=
  yields_andThen.mpr ⟨u, d, hs.cursor ▸ s.remaining_le, hs, hf _⟩

/-- A required token is what comes next, or nothing is yielded. -/
theorem yields_expect {kind : Token.Kind} {v : Unit} :
    (c.expect kind).Yields v c' ↔ c.upcoming.kind = kind ∧ c' = c.advance := by
  unfold Cursor.expect
  constructor
  · intro h
    split at h
    case isTrue hKind => exact ⟨hKind, h.cursor.symm⟩
    case isFalse => exact absurd h not_yields_fail
  · rintro ⟨hKind, rfl⟩
    rw [if_pos hKind]
    exact ⟨rfl, rfl, rfl⟩

theorem yields_expect_of_kind {kind : Token.Kind} (h : c.upcoming.kind = kind) :
    (c.expect kind).Yields () c.advance :=
  yields_expect.mpr ⟨h, rfl⟩

theorem yields_endStatement {v w : α} :
    (c.endStatement v).Yields w c' ↔
      w = v ∧ c' = if c.upcoming.kind = .semicolon then c.advance else c := by
  unfold Cursor.endStatement
  split
  · constructor
    · rintro ⟨hValue, -, hCursor⟩
      exact ⟨(Option.some.inj hValue).symm, hCursor.symm⟩
    · rintro ⟨rfl, rfl⟩
      exact ⟨rfl, rfl, rfl⟩
  · exact yields_stay

/-- Nothing is yielded after a failure that has been reported. -/
theorem yields_orRecover {s : Attempt c α}
    {found : α → (d : Cursor) → d.remaining ≤ c.remaining → Attempt d β}
    {lost : Bool → (d : Cursor) → d.remaining ≤ c.remaining → Attempt d β}
    (hs : s.value = none → s.diagnostics ≠ []) {v : β} :
    Attempt.Yields (s.orRecover found lost : Attempt c β) v c' ↔
      ∃ u d, ∃ h : d.remaining ≤ c.remaining, s.Yields u d ∧ (found u d h).Yields v c' := by
  constructor
  · rintro ⟨hValue, hDiagnostics, hCursor⟩
    cases hCases : s.value with
    | none =>
      rw [orRecover_of_none hCases] at hDiagnostics
      exact absurd (List.append_eq_nil_iff.mp hDiagnostics).1 (hs hCases)
    | some u =>
      rw [orRecover_of_some hCases] at hValue hDiagnostics hCursor
      obtain ⟨hFirst, hSecond⟩ := List.append_eq_nil_iff.mp hDiagnostics
      exact ⟨u, s.cursor, s.remaining_le, ⟨hCases, hFirst, rfl⟩, ⟨hValue, hSecond, hCursor⟩⟩
  · rintro ⟨u, d, h, ⟨hValue', hFirst, rfl⟩, ⟨hValue, hSecond, hCursor⟩⟩
    rw [orRecover_of_some hValue']
    refine ⟨hValue, ?_, hCursor⟩
    rw [Step.diagnostics_bind, hFirst, hSecond]
    rfl

end Attempt

/-! ## Values and reports -/

/-- The attempt succeeds with the value `v` on the cursor `c'` and reports `ds`. -/
structure Attempt.Succeeds {c : Cursor} {α : Type} (s : Attempt c α) (v : α)
    (ds : List Diagnostic) (c' : Cursor) : Prop where
  value : s.value = some v
  diagnostics : s.diagnostics = ds
  cursor : s.cursor = c'

namespace Attempt

variable {c c' d : Cursor} {α β : Type} {u : α} {v : β} {ds es : List Diagnostic}

/-- What is yielded is reached without any diagnostic. -/
theorem Yields.succeeds {s : Attempt c α} (h : s.Yields u c') : s.Succeeds u [] c' :=
  ⟨h.value, h.diagnostics, h.cursor⟩

theorem Succeeds.advancing {s : Attempt c.advance α} (h : s.Succeeds u ds c') :
    Attempt.Succeeds (.advancing s : Attempt c α) u ds c' :=
  ⟨h.value, h.diagnostics, h.cursor⟩

theorem Succeeds.inBlock {s : Attempt c.enterBlock α} (h : s.Succeeds u ds c') :
    Attempt.Succeeds (.inBlock s : Attempt c α) u ds c'.leaveBlock :=
  ⟨h.value, h.diagnostics, congrArg Cursor.leaveBlock h.cursor⟩

theorem Succeeds.mapValue {s : Attempt c α} (f : α → β) (h : s.Succeeds u ds c') :
    (s.mapValue f).Succeeds (f u) ds c' :=
  ⟨congrArg (Option.map f) h.value, h.diagnostics, h.cursor⟩

theorem Succeeds.andThen {s : Attempt c α} (hs : s.Succeeds u ds d)
    {f : α → (d : Cursor) → d.remaining ≤ c.remaining → Attempt d β}
    (hf : ∀ h, (f u d h).Succeeds v es c') : (s.andThen f).Succeeds v (ds ++ es) c' := by
  obtain ⟨hValue, hDiagnostics, rfl⟩ := hs
  have hNext := hf s.remaining_le
  rw [andThen_of_some hValue]
  refine ⟨hNext.value, ?_, hNext.cursor⟩
  rw [Step.diagnostics_bind, hDiagnostics, hNext.diagnostics]

theorem Yields.andThen_succeeds {s : Attempt c α} (hs : s.Yields u d)
    {f : α → (d : Cursor) → d.remaining ≤ c.remaining → Attempt d β}
    (hf : ∀ h, (f u d h).Succeeds v ds c') : (s.andThen f).Succeeds v ds c' :=
  hs.succeeds.andThen hf

end Attempt

/-! ## Tokens -/

namespace Cursor

/-- Moving from `c` to `c'` passes the tokens `ts`, which stand behind the current token. -/
structure Passes (c : Cursor) (ts : List Token) (c' : Cursor) : Prop where
  tokens : c'.tokens = c.tokens.drop ts.length
  passed : c.tokens.tail = ts ++ c'.tokens.tail
  position : c'.position = c.position + ts.length

namespace Passes

variable {c c' c'' : Cursor} {ts us : List Token}

theorem refl (c : Cursor) : c.Passes [] c :=
  ⟨rfl, rfl, rfl⟩

theorem trans (h : c.Passes ts c') (h' : c'.Passes us c'') : c.Passes (ts ++ us) c'' where
  tokens := by rw [h'.tokens, h.tokens, List.drop_drop, List.length_append]
  passed := by rw [h.passed, h'.passed, List.append_assoc]
  position := by rw [h'.position, h.position, List.length_append, Nat.add_assoc]

theorem advance (h : c.upcoming.kind ≠ .endOfInput) : c.Passes [c.upcoming] c.advance := by
  obtain ⟨tokens, p, d, l⟩ := c
  match tokens with
  | [] | [_] => exact absurd rfl h
  | _ :: _ :: _ => exact ⟨rfl, rfl, rfl⟩

/-- Passing on from the next token. -/
theorem of_advance (h : c.upcoming.kind ≠ .endOfInput) (h' : c.advance.Passes ts c') :
    c.Passes (c.upcoming :: ts) c' :=
  (advance h).trans h'

/-- The tokens that are left behind the cursor when it has passed some of those ahead. -/
theorem tail_eq (h : c.Passes ts c') (hTokens : c.tokens.tail = ts ++ us) :
    c'.tokens.tail = us :=
  List.append_cancel_left (h.passed.symm.trans hTokens)

end Passes

/-- Reading from `c` to `c'` takes the tokens `ts`, the current one first. -/
def Takes (c : Cursor) (ts : List Token) (c' : Cursor) : Prop :=
  ∃ us, ts = c.current :: us ∧ c.Passes us c'

namespace Takes

variable {c c' c'' : Cursor} {ts us : List Token}

theorem trans (h : c.Takes ts c') (h' : c'.Passes us c'') : c.Takes (ts ++ us) c'' := by
  obtain ⟨vs, rfl, hPasses⟩ := h
  exact ⟨vs ++ us, rfl, hPasses.trans h'⟩

theorem passes (h : c.advance.Takes ts c') (hNext : c.upcoming.kind ≠ .endOfInput) :
    c.Passes ts c' := by
  obtain ⟨us, rfl, hPasses⟩ := h
  exact hPasses.of_advance hNext

theorem tail_eq (h : c.Takes ts c') (hTokens : c.tokens = ts ++ us) : c'.tokens.tail = us := by
  obtain ⟨vs, rfl, hPasses⟩ := h
  refine hPasses.tail_eq ?_
  rw [hTokens]
  rfl

end Takes

/-! ## Ends -/

variable {c : Cursor}

/-- Nothing is read where the tokens have ended. -/
theorem current_ne_of_yields_operand {e : Expr} {c' : Cursor} (h : (operand c).Yields e c') :
    c.current.kind ≠ .endOfInput := by
  intro hEnd
  rw [operand_of_not_startsOperand (by rw [hEnd]; rfl)] at h
  exact Attempt.not_yields_fail h

/-- A block that ends where the tokens do is not yielded. -/
theorem current_ne_of_yields_blockRest {ss : List Statement} {c' : Cursor}
    (h : (blockRest c).Yields ss c') : c.current.kind ≠ .endOfInput := by
  intro hEnd
  have hBrace : c.current.kind ≠ .rightBrace := by rw [hEnd]; decide
  rw [blockRest, if_neg hBrace, dif_pos hEnd] at h
  exact Attempt.not_yields_fail h

end Cursor

end MonkeyLang
