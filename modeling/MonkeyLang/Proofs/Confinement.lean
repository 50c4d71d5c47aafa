import MonkeyLang.Proofs.Braces
import MonkeyLang.Proofs.Embedding.Reading

/-!
# Errors are confined to their statement

A text with balanced braces that ends with a semicolon can be parsed on its own: nothing that is
wrong with it makes a parse go wrong behind it, and nothing that follows changes what is read or
reported in it.

* `Embedding.program_append` : parsing goes on behind such a text as if it started there.
* `Embedding.alone` : the position of a text and the blocks closed before it make no difference.
* `parse_append` : parsing two texts one after the other.
-/

namespace MonkeyLang

open Cursor

/-- The last token is a semicolon. -/
def EndsStatement (ts : List Token) : Prop :=
  ∃ t ∈ ts.getLast?, t.kind = .semicolon

theorem EndsStatement.of_cons {t : Token} {ts : List Token} (h : EndsStatement (t :: ts))
    (hNext : ts ≠ []) : EndsStatement ts := by
  obtain ⟨last, hLast, hKind⟩ := h
  rw [List.getLast?_cons_of_ne_nil hNext] at hLast
  exact ⟨last, hLast, hKind⟩

theorem EndsStatement.kind_of_singleton {t : Token} (h : EndsStatement [t]) :
    t.kind = .semicolon := by
  obtain ⟨last, hLast, hKind⟩ := h
  cases hLast
  exact hKind

theorem Diagnostic.replaceEnd_endOfInput (d : Diagnostic) : d.replaceEnd .endOfInput = d := by
  have hKind : ∀ kind : Token.Kind, kind.replaceEnd .endOfInput = kind := by
    intro kind
    unfold Token.Kind.replaceEnd
    split
    · exact Eq.symm ‹_›
    · rfl
  cases d <;> simp only [Diagnostic.replaceEnd, hKind]

theorem Diagnostic.map_replaceEnd_endOfInput (ds : List Diagnostic) :
    ds.map (Diagnostic.replaceEnd .endOfInput) = ds := by
  rw [List.map_congr_left fun d _ => d.replaceEnd_endOfInput, List.map_id']

namespace Embedding

/-- A text with balanced braces that ends with a semicolon, in front of another one. -/
def front (following : List Token) : Embedding where
  following := following
  lift := 0
  finish := .endOfInput
  inside depth ts := Closes depth ts ∧ EndsStatement ts
  finish_eq := .inl rfl
  pass {depth t ts} h hKind := by
    obtain ⟨⟨-, hCloses⟩, hEnds⟩ := h
    refine ⟨hCloses, hEnds.of_cons ?_⟩
    rintro rfl
    exact hKind hEnds.kind_of_singleton
  terminate {depth t ts} h hKind := by
    obtain ⟨⟨-, hCloses⟩, hEnds⟩ := h
    rw [hKind] at hCloses
    by_cases hNext : ts = []
    · subst hNext
      exact .inr ⟨hCloses, rfl⟩
    · exact .inl ⟨hCloses, hEnds.of_cons hNext⟩
  guarded _ _ := rfl
  exhausted h := by
    obtain ⟨-, last, hLast, -⟩ := h
    cases hLast

/-- A text alone, wherever its first token stands. -/
def alone : Embedding where
  following := []
  lift := 0
  finish := .endOfInput
  inside _ _ := True
  finish_eq := .inl rfl
  pass _ _ := trivial
  terminate _ _ := .inl trivial
  guarded _ _ := rfl
  exhausted _ := .inl ⟨rfl, rfl, fun _ => trivial⟩

variable {E : Embedding}

/-- Outside all blocks no closing brace keeps recovery from going on. -/
theorem Stuck.between_recover {a b : Cursor} (h : E.Stuck 0 a b) (hLift : E.lift = 0)
    (hDepth : a.depth = 0) :
    E.Between a.recover.cursor.advance b.recover.cursor.advance := by
  have hDepthAbove : b.depth = 0 := by
    rw [h.aligned.depth, hDepth, hLift]
  cases recovered h with
  | onward _ _ hBetween => exact hBetween
  | ownBrace hValue _ _ _ =>
    rw [value_recover_of_outside hDepth] at hValue
    cases hValue
  | outerBrace _ hAbove _ _ _ =>
    rw [value_recover_of_outside hDepthAbove] at hAbove
    cases hAbove

/-- Behind a part that stands in no block of its own, parsing goes on with what follows. -/
theorem program_append (hLift : E.lift = 0) (hFinish : E.finish = .endOfInput) (a b : Cursor)
    (h : E.Between a b) (hDepth : a.depth = 0) :
    ∃ c, c.tokens = E.following ∧ c.depth = 0 ∧ c.Fresh ∧
      (program b).value = (program a).value ++ (program c).value ∧
      (program b).diagnostics = (program a).diagnostics ++ (program c).diagnostics := by
  induction a using program.induct generalizing b with
  | case1 a hEnd =>
    have hTokens := h.tokens
    rw [tokens_eq_nil h.plain hEnd] at hTokens
    rw [program_of_end hEnd]
    exact ⟨b, hTokens, by rw [h.depth, hDepth, hLift], h.freshAbove, rfl, rfl⟩
  | case2 a hEnd ih =>
    have hAt := h.at_of_kind hEnd
    have hStatement := hAt.agrees_statement hEnd
    have hEndAbove : b.current.kind ≠ .endOfInput := hAt.current_eq hEnd ▸ hEnd
    have hReports : (statement b).diagnostics = (statement a).diagnostics := by
      rw [hStatement.diagnostics, hFinish, Diagnostic.map_replaceEnd_endOfInput]
    have hDepth' : (statement a).cursor.depth = 0 := (depth_statement a).trans hDepth
    cases hValue : (statement a).value with
    | some s =>
      obtain ⟨c, hTokens, hOutside, hFresh, hTrees, hRest⟩ :=
        ih _ (statement a).remaining_le _ (hStatement.found s hValue) hDepth'
      refine ⟨c, hTokens, hOutside, hFresh, ?_, ?_⟩
      · rw [program_of_some hEnd hValue, program_of_some hEndAbove (hStatement.value.trans hValue)]
        exact congrArg (s :: ·) hTrees
      · rw [program_of_some hEnd hValue, program_of_some hEndAbove (hStatement.value.trans hValue)]
        simp only [Step.diagnostics_bind, Step.diagnostics_advancing, Step.diagnostics_map, hRest,
          hReports, List.append_assoc]
    | none =>
      have hBetween := (hStatement.lost hValue).between_recover hLift hDepth'
      obtain ⟨c, hTokens, hOutside, hFresh, hTrees, hRest⟩ :=
        ih _ (Nat.le_trans (Step.remaining_le _) (statement a).remaining_le) _ hBetween
          ((depth_recover _).trans hDepth')
      refine ⟨c, hTokens, hOutside, hFresh, ?_, ?_⟩
      · rw [program_of_none hEnd hValue, program_of_none hEndAbove (hStatement.value.trans hValue)]
        exact hTrees
      · rw [program_of_none hEnd hValue, program_of_none hEndAbove (hStatement.value.trans hValue)]
        simp only [Step.diagnostics_bind, Step.diagnostics_advancing, diagnostics_recover,
          List.nil_append, hRest, hReports, List.append_assoc]

end Embedding

/-- A text is parsed in the same way wherever its first token stands. -/
theorem program_eq_parse {ts : List Token} {c : Cursor} (hPlain : ∀ t ∈ ts, t.kind ≠ .endOfInput)
    (hTokens : c.tokens = ts) (hDepth : c.depth = 0) (hFresh : c.Fresh) :
    (program c).value = (parse ts).value ∧
      (program c).diagnostics = (parse ts).diagnostics := by
  have hBetween : Embedding.alone.Between (.start ts) c :=
    { tokens := hTokens.trans (List.append_nil ts).symm
      depth := hDepth
      plain := hPlain
      inside := .inl trivial
      fresh := fresh_start ts
      freshAbove := hFresh }
  obtain ⟨end', hEndTokens, -, -, hTrees, hReports⟩ :=
    Embedding.program_append rfl rfl _ c hBetween rfl
  have hEnd : end'.current.kind = .endOfInput := congrArg firstKind hEndTokens
  rw [program_of_end hEnd] at hTrees hReports
  exact ⟨hTrees.trans (List.append_nil _), hReports.trans (List.append_nil _)⟩

/-- If the first of two texts has balanced braces and ends with a semicolon, parsing both in a
row yields the statements and the diagnostics of the first and then those of the second, however
malformed they are. -/
theorem parse_append {front following : List Token} (hFront : ∀ t ∈ front, t.kind ≠ .endOfInput)
    (hFollowing : ∀ t ∈ following, t.kind ≠ .endOfInput) (hBalanced : Balanced front)
    (hEnds : front = [] ∨ EndsStatement front) :
    (parse (front ++ following)).value = (parse front).value ++ (parse following).value ∧
      (parse (front ++ following)).diagnostics =
        (parse front).diagnostics ++ (parse following).diagnostics := by
  have hBetween : (Embedding.front following).Between (.start front)
      (.start (front ++ following)) :=
    { tokens := rfl
      depth := rfl
      plain := hFront
      inside := hEnds.symm.imp (fun h => ⟨closes_zero_iff_balanced.mpr hBalanced, h⟩)
        fun h => ⟨rfl, h⟩
      fresh := fresh_start _
      freshAbove := fresh_start _ }
  obtain ⟨c, hTokens, hDepth, hFresh, hTrees, hReports⟩ :=
    Embedding.program_append rfl rfl _ _ hBetween rfl
  obtain ⟨hTreesBehind, hReportsBehind⟩ := program_eq_parse hFollowing hTokens hDepth hFresh
  rw [hTreesBehind] at hTrees
  rw [hReportsBehind] at hReports
  exact ⟨hTrees, hReports⟩

/-- `if (a { b }; ` breaks off inside its condition, and `) c` does not start a statement. -/
theorem parse_append_unclosed :
    let front : List Token := [⟨.ifWord, "if"⟩, ⟨.leftParen, "("⟩, ⟨.identifier, "a"⟩,
      ⟨.leftBrace, "\x7b"⟩, ⟨.identifier, "b"⟩, ⟨.rightBrace, "\x7d"⟩, ⟨.semicolon, ";"⟩]
    let following : List Token := [⟨.rightParen, ")"⟩, ⟨.identifier, "c"⟩]
    Balanced front ∧ EndsStatement front ∧
      (parse (front ++ following)).value = (parse front).value ++ (parse following).value ∧
      (parse (front ++ following)).diagnostics =
        (parse front).diagnostics ++ (parse following).diagnostics := by
  intro front following
  have hBalanced : Balanced front :=
    closes_zero_iff_balanced.mp (by simp [front, nestingAfter])
  have hEnds : EndsStatement front := ⟨⟨.semicolon, ";"⟩, rfl, rfl⟩
  exact ⟨hBalanced, hEnds, parse_append (by decide) (by decide) hBalanced (.inr hEnds)⟩

end MonkeyLang
