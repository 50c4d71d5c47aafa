import MonkeyLang.Proofs.Decimal
import MonkeyLang.Proofs.Grounds
import MonkeyLang.Proofs.Lexing.Decomposition
import MonkeyLang.Proofs.Reading.Completeness
import MonkeyLang.Script

/-!
# Integers in programs

A number by itself is a program if its text is that of an integer, and is reported with its text
as it is otherwise. Scanning makes numbers without a sign, so what a source text has in its tree
are integers from zero up to the greatest one, with the values that its digits have, and the
numbers that are reported are beyond that. This holds of what is kept of a malformed source too.

* `parse_number_of_some` and `parse_number_of_none` : a number by itself.
* `Script.exists_digits_of_mem_parse` and `Script.greatest_lt_of_mem_parse` : the integers and the
  reported numbers of a source text.
* `integers_exact` : integers are exact up to their limits.
-/

namespace MonkeyLang

open Cursor

variable {s : String}

/-! ## A number by itself -/

/-- A number in range is a program of one statement. -/
theorem parse_number_of_some {v : Integer} (h : Integer.ofText? s = some v) :
    (parse [⟨.integer, s⟩]).value = [.expression s (.integer v)] ∧
      (parse [⟨.integer, s⟩]).diagnostics = [] := by
  have hChain : Written (.chain (.integer v) []) [⟨.integer, s⟩] :=
    (Written.integer rfl h).chain_single
  have hLast : NoOperator [] := rfl
  have hProgram : Written (.statements [.expression s (Chain.tree (.integer v) [])])
      [⟨.integer, s⟩] := .juxtaposed hLast (.expression hChain) .noStatement
  rw [Chain.tree_nil] at hProgram
  exact program_of_written (c := .start _) hProgram

/-- A number out of range makes its statement fail. -/
theorem Cursor.statement_of_bad_integer {c : Cursor} (hKind : c.current.kind = .integer)
    (hValue : Integer.ofText? c.current.literal = none) :
    (statement c).value = none ∧
      (statement c).diagnostics = [.invalidInteger c.current.literal] := by
  have hOperand := operand_of_bad_integer hKind hValue
  have hNone : (operand c).value = none := by
    rw [hOperand]
    rfl
  have hExpression : expression .lowest c = .fail (.invalidInteger c.current.literal) := by
    rw [expression, Attempt.andThen_of_none hNone, hOperand]
    rfl
  rw [statement_of_expression (by rw [hKind]; decide) (by rw [hKind]; decide), hExpression,
    Attempt.andThen_of_none rfl]
  exact ⟨rfl, rfl⟩

/-- A number out of range is reported and leaves no statement. -/
theorem parse_number_of_none (h : Integer.ofText? s = none) :
    (parse [⟨.integer, s⟩]).value = [] ∧
      (parse [⟨.integer, s⟩]).diagnostics = [.invalidInteger s] := by
  let c : Cursor := .start [⟨.integer, s⟩]
  obtain ⟨hNone, hReport⟩ := statement_of_bad_integer (c := c) rfl h
  obtain ⟨hValue, hDiagnostics⟩ := program_of_onward (c := c) nofun hNone
  -- There is one token, so recovery has nothing to go on to.
  have hEnd : c.stopped.advance.current.kind = .endOfInput := by
    by_contra hMore
    have hPos := remaining_pos hMore
    have hLeft : c.stopped.remaining ≤ 1 := c.remaining_stopped_le
    rw [remaining_advance] at hPos
    omega
  rw [program_of_end hEnd] at hValue hDiagnostics
  refine ⟨hValue, hDiagnostics.trans ?_⟩
  rw [hReport]
  rfl

/-- A number token is parsed to the value of its decimal text, and to no other. -/
theorem parse_number_iff {v : Integer} :
    ((parse [⟨.integer, s⟩]).value = [.expression s (.integer v)] ∧
        (parse [⟨.integer, s⟩]).diagnostics = []) ↔ Decimal s.toList v.toInt := by
  rw [← Integer.ofText?_eq_some_iff]
  constructor
  · rintro ⟨hValue, -⟩
    cases hText : Integer.ofText? s with
    | none =>
      rw [(parse_number_of_none hText).1] at hValue
      cases hValue
    | some w =>
      rw [(parse_number_of_some hText).1] at hValue
      cases hValue
      rfl
  · exact parse_number_of_some

/-! ## Source texts -/

/-- Scanning makes numbers of digits alone. -/
theorem Token.isNumber_of_mem_ofSource {source : String} {t : Token} (ht : t ∈ ofSource source)
    (hKind : t.kind = .integer) : IsNumber t.literal.toList := by
  have hLexed : Lexed (ofSource source) source.toList := lexed_iff.mpr rfl
  have hBelongs := hLexed.belongs t ht
  obtain ⟨kind, literal⟩ := t
  obtain rfl : kind = .integer := hKind
  exact hBelongs

namespace Script

variable {source : String}

/-- An integer in the tree has the value of the digits it is written with. -/
theorem exists_digits_of_mem_parse {v : Integer}
    (hv : v ∈ Statement.integersAll (parse source).value) :
    ∃ t ∈ Token.ofSource source, t.kind = .integer ∧ v.toInt = decimalValue t.literal.toList := by
  obtain ⟨t, ht, hKind, hValue⟩ := (parse_grounded (Token.ofSource source)).1 v hv
  have hNumber := Token.isNumber_of_mem_ofSource ht hKind
  exact ⟨t, ht, hKind, (hNumber.ofText?_eq_some_iff.mp hValue).symm⟩

/-- A number is reported only if its digits come to more than the greatest integer. -/
theorem greatest_lt_of_mem_parse {literal : String}
    (h : .invalidInteger literal ∈ (parse source).diagnostics) :
    ⟨.integer, literal⟩ ∈ Token.ofSource source ∧ Token.IsNumber literal.toList ∧
      Integer.greatest < decimalValue literal.toList := by
  have hAbout := (parse_grounded (Token.ofSource source)).2 _ h
  cases hAbout with
  | @invalidInteger t ht hKind hNone =>
    have hNumber := Token.isNumber_of_mem_ofSource ht hKind
    obtain ⟨kind, literal⟩ := t
    obtain rfl : kind = .integer := hKind
    exact ⟨ht, hNumber, hNumber.ofText?_eq_none_iff.mp hNone⟩

end Script

/-- Integers are exact up to their limits. A number by itself is a program of one statement with
the integer `n` in it if its text is a decimal text of `n` and `n` is in range; it is no statement
and reported with its text otherwise. So a source text has integers from zero up to the greatest
one in its tree, those that its digits stand for, and of its numbers only those are reported that
are beyond them. -/
theorem integers_exact :
    (∀ (s : String) (n : Int),
      (∃ v : Integer, v.toInt = n ∧
        (parse [⟨.integer, s⟩]).value = [.expression s (.integer v)] ∧
        (parse [⟨.integer, s⟩]).diagnostics = []) ↔
      Decimal s.toList n ∧ -2 ^ 63 ≤ n ∧ n ≤ 2 ^ 63 - 1) ∧
    (∀ s : String, (¬ ∃ n, Decimal s.toList n ∧ -2 ^ 63 ≤ n ∧ n ≤ 2 ^ 63 - 1) →
      (parse [⟨.integer, s⟩]).value = [] ∧
        (parse [⟨.integer, s⟩]).diagnostics = [.invalidInteger s]) ∧
    ∀ source : String,
      (∀ v ∈ Statement.integersAll (Script.parse source).value,
        0 ≤ v.toInt ∧ v.toInt ≤ 2 ^ 63 - 1 ∧
          ∃ t ∈ Token.ofSource source,
            t.kind = .integer ∧ v.toInt = decimalValue t.literal.toList) ∧
      ∀ literal, .invalidInteger literal ∈ (Script.parse source).diagnostics →
        ⟨.integer, literal⟩ ∈ Token.ofSource source ∧ Token.IsNumber literal.toList ∧
          2 ^ 63 ≤ decimalValue literal.toList := by
  have hLeast : Integer.least = -2 ^ 63 := rfl
  have hGreatest : Integer.greatest = 2 ^ 63 - 1 := rfl
  refine ⟨fun s n => ⟨?_, ?_⟩, fun s hOther => ?_,
    fun source => ⟨fun v hv => ?_, fun literal h => ?_⟩⟩
  · rintro ⟨v, rfl, hParse⟩
    exact ⟨parse_number_iff.mp hParse, v.minValue_le_toInt, v.toInt_le⟩
  · rintro ⟨hDecimal, hLow, hHigh⟩
    obtain ⟨v, rfl⟩ : ∃ v : Integer, v.toInt = n :=
      ⟨.ofInt n, Int64.toInt_ofInt_of_le hLow (by omega)⟩
    exact ⟨v, rfl, parse_number_iff.mpr hDecimal⟩
  · apply parse_number_of_none
    rw [Integer.ofText?_eq_none_iff]
    intro n hn
    by_contra hRange
    exact hOther ⟨n, hn, by omega⟩
  · obtain ⟨t, ht, hKind, hValue⟩ := Script.exists_digits_of_mem_parse hv
    exact ⟨by omega, v.toInt_le, t, ht, hKind, hValue⟩
  · obtain ⟨ht, hNumber, hBeyond⟩ := Script.greatest_lt_of_mem_parse h
    exact ⟨ht, hNumber, by omega⟩

/-- The number just below the range is read behind its sign, whatever zeros it starts with; without
the sign it is just above the range, and a script that has it keeps its other integers. -/
theorem integers_exact_limits :
    (∃ v : Integer, v.toInt = -2 ^ 63 ∧
      (parse [⟨.integer, "-009223372036854775808"⟩]).value =
        [.expression "-009223372036854775808" (.integer v)] ∧
      (parse [⟨.integer, "-009223372036854775808"⟩]).diagnostics = []) ∧
    (parse [⟨.integer, "9223372036854775808"⟩]).value = [] ∧
    (parse [⟨.integer, "9223372036854775808"⟩]).diagnostics =
      [.invalidInteger "9223372036854775808"] ∧
    (∃ t ∈ Token.ofSource "9223372036854775808; -007", t.kind = .integer ∧
      (7 : Integer).toInt = decimalValue t.literal.toList) ∧
    2 ^ 63 ≤ decimalValue "9223372036854775808".toList := by
  obtain ⟨hText, hOther, hSource⟩ := integers_exact
  obtain ⟨hIntegers, hReports⟩ := hSource "9223372036854775808; -007"
  have hLeast : Decimal "-009223372036854775808".toList (-2 ^ 63) :=
    Integer.intOfDigits?_eq_some_iff.mp (by decide +kernel)
  have hBeyond : Integer.ofText? "9223372036854775808" = none := by decide +kernel
  have hNone := hOther "9223372036854775808" (by
    rintro ⟨n, hn, hLow, hHigh⟩
    rcases Integer.ofText?_eq_none_iff.mp hBeyond n hn with h | h
    · exact absurd hLow (Int.not_le.mpr h)
    · exact absurd hHigh (Int.not_le.mpr h))
  refine ⟨(hText _ _).mpr ⟨hLeast, by decide, by decide⟩, hNone.1, hNone.2, ?_, ?_⟩
  · exact (hIntegers 7 (by decide +kernel)).2.2
  · exact (hReports "9223372036854775808" (by decide +kernel)).2.2

end MonkeyLang
