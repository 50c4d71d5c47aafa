import Mathlib.Logic.ExistsUnique
import MonkeyLang.Proofs.Reading.Completeness
import MonkeyLang.Proofs.Reading.Soundness

/-!
# The language that is accepted

* `diagnostics_parse_eq_nil_iff` : a parse reports nothing exactly if the tokens can be derived
  from the grammar and their integers are in range. Reading always takes a minus for the
  continuation of the expression before it; no list of tokens is refused for that.
* `chain_yields_tree` : a chain of operands is read as its tree by the rule of `Chain.tree`,
  whatever the operands are and wherever the chain stands.
* `exists_sublist_parse` : recovery only leaves tokens out. The result of any parse is that of some
  of the tokens, on which nothing is reported.
-/

namespace MonkeyLang

/-- A parse without diagnostics is the same as a list of tokens that writes its result. -/
theorem diagnostics_parse_eq_nil_iff_written {tokens : List Token}
    (hPlain : ∀ t ∈ tokens, t.kind ≠ .endOfInput) :
    (parse tokens).diagnostics = [] ↔ ∃ ss, Written (.statements ss) tokens := by
  constructor
  · intro h
    exact ⟨_, written_parse_of_wellFormed hPlain h⟩
  · rintro ⟨ss, h⟩
    exact (program_of_written (c := .start tokens) h).2

/-- Tokens write statements exactly if they can be derived from the grammar and their integers are
in range. -/
theorem exists_written_statements_iff {tokens : List Token} :
    (∃ ss, Written (.statements ss) tokens) ↔
      Derives .statements (tokens.map Token.kind) ∧ IntegersInRange tokens := by
  constructor
  · rintro ⟨ss, h⟩
    exact ⟨h.derived, h.integersInRange⟩
  · rintro ⟨hDerives, hRange⟩
    exact hDerives.writable rfl hRange

/-- A parse reports nothing exactly if the tokens can be derived from the grammar and their
integers are in range. -/
theorem diagnostics_parse_eq_nil_iff {tokens : List Token}
    (hPlain : ∀ t ∈ tokens, t.kind ≠ .endOfInput) :
    (parse tokens).diagnostics = [] ↔
      Derives .statements (tokens.map Token.kind) ∧ IntegersInRange tokens := by
  rw [diagnostics_parse_eq_nil_iff_written hPlain, exists_written_statements_iff]

/-- Two statements without a semicolon between them, the second of which starts with a minus,
are accepted. -/
theorem diagnostics_parse_minus :
    let tokens : List Token := [⟨.integer, "5"⟩, ⟨.minus, "-"⟩, ⟨.integer, "3"⟩]
    (∀ t ∈ tokens, t.kind ≠ .endOfInput) ∧
      Derives .statements ([.integer] ++ ([.minus, .integer] ++ [])) ∧
      (parse tokens).diagnostics = [] := by
  intro tokens
  have hPlain : ∀ t ∈ tokens, t.kind ≠ .endOfInput := by decide
  have hFive : Derives .statement ([.integer] ++ []) :=
    .expression (.lastOperand .integer) (by decide)
  have hMinusThree : Derives .statement ([.minus, .integer] ++ []) :=
    .expression (.lastOperand (.unary .negate .integer)) (by decide)
  have hDerives : Derives .statements ([.integer] ++ ([.minus, .integer] ++ [])) :=
    .moreStatements hFive (.moreStatements hMinusThree .noStatement)
  have hRange : IntegersInRange tokens := by
    unfold IntegersInRange
    decide
  exact ⟨hPlain, hDerives, (diagnostics_parse_eq_nil_iff hPlain).mpr ⟨hDerives, hRange⟩⟩

/-! ## Chains of operands -/

/-- Tokens write at most one operand. -/
theorem Written.operand_unique {e e' : Expr} {ts : List Token} (h : Written (.operand e) ts)
    (h' : Written (.operand e') ts) : e = e' := by
  have hTokens : (Cursor.start ts).tokens = ts ++ [] := (List.append_nil ts).symm
  have hElse : firstKind [] ≠ .elseWord := by decide
  obtain ⟨_, hYields, -⟩ := h.read (.start ts) [] hTokens hElse
  obtain ⟨_, hYields', -⟩ := h'.read (.start ts) [] hTokens hElse
  exact Option.some.inj (hYields.value.symm.trans hYields'.value)

/-- Every operand of the grammar has one tree, and a chain of operands, up to a token that is
neither an operator nor an alternative, is read as the tree of the chain. -/
theorem chain_yields_tree :
    (∀ ts : List Token, Derives .operand (ts.map Token.kind) → IntegersInRange ts →
      ∃! e, Written (.operand e) ts) ∧
    ∀ (first : Expr) (links : List Chain.Link) (ts rest : List Token) (c : Cursor),
      Written (.chain first links) ts → c.tokens = ts ++ rest → NoOperator rest →
      firstKind rest ≠ .elseWord →
      ∃ c', (Cursor.expression .lowest c).Yields (Chain.tree first links) c' ∧
        c.Takes ts c' := by
  constructor
  · intro ts hDerives hRange
    obtain ⟨e, h⟩ := hDerives.writable rfl hRange
    exact ⟨e, h, fun e' h' => h'.operand_unique h⟩
  · intro first links ts rest c h hTokens hNoOperator hElse
    exact Cursor.ChainRead.yields h.read hTokens hNoOperator hElse

/-- `a == -b * c < d - e - f`, with operators of every rank, in front of a parenthesis and in some
open block. -/
theorem chain_yields_tree_ranks :
    let ts : List Token := [⟨.identifier, "a"⟩, ⟨.equal, "=="⟩, ⟨.minus, "-"⟩,
      ⟨.identifier, "b"⟩, ⟨.asterisk, "*"⟩, ⟨.identifier, "c"⟩, ⟨.less, "<"⟩,
      ⟨.identifier, "d"⟩, ⟨.minus, "-"⟩, ⟨.identifier, "e"⟩, ⟨.minus, "-"⟩, ⟨.identifier, "f"⟩]
    let rest : List Token := [⟨.leftParen, "("⟩]
    let c : Cursor := ⟨ts ++ rest, 7, 1, some 6⟩
    let product : Expr :=
      .binary .multiply (.unary .negate (.identifier "b")) (.identifier "c")
    let difference : Expr :=
      .binary .subtract (.binary .subtract (.identifier "d") (.identifier "e")) (.identifier "f")
    Derives .operand [.minus, .identifier] ∧
      (∃! e, Written (.operand e) [⟨.minus, "-"⟩, ⟨.identifier, "b"⟩]) ∧
      NoOperator rest ∧ firstKind rest ≠ .elseWord ∧
      ∃ c', (Cursor.expression .lowest c).Yields
        (.binary .equal (.identifier "a") (.binary .less product difference)) c' ∧
        c.Takes ts c' := by
  intro ts rest c product difference
  have hDerives : Derives .operand [.minus, .identifier] := .unary .negate .identifier
  have hRange : IntegersInRange [⟨.minus, "-"⟩, ⟨.identifier, "b"⟩] := by
    unfold IntegersInRange
    decide
  have hNoOperator : NoOperator rest := rfl
  have hElse : firstKind rest ≠ .elseWord := by decide
  have hName : ∀ name : String, Written (.operand (.identifier name)) [⟨.identifier, name⟩] :=
    fun name => .identifier (t := ⟨.identifier, name⟩) rfl
  let links : List Chain.Link := [(.equal, .unary .negate (.identifier "b")),
    (.multiply, .identifier "c"), (.less, .identifier "d"), (.subtract, .identifier "e"),
    (.subtract, .identifier "f")]
  have hLinks : Written (.links links) ts.tail :=
    .link .equal rfl (.unary .negate rfl (hName "b")) <| .link .multiply rfl (hName "c") <|
      .link .less rfl (hName "d") <| .link .subtract rfl (hName "e") <|
        .link .subtract rfl (hName "f") .noLink
  have hChain : Written (.chain (.identifier "a") links) ts := .chain (hName "a") hLinks
  have hTree : Chain.tree (.identifier "a") links =
      .binary .equal (.identifier "a") (.binary .less product difference) := by
    decide +kernel
  exact ⟨hDerives, chain_yields_tree.1 _ hDerives hRange, hNoOperator, hElse,
    hTree ▸ chain_yields_tree.2 _ _ ts rest c hChain rfl hNoOperator hElse⟩

/-! ## What is left of a malformed program -/

/-- The result of a parse is that of some of the tokens in the same order, on which nothing is
reported: of all of them if nothing is reported on these. -/
theorem exists_sublist_parse {tokens : List Token} (hPlain : ∀ t ∈ tokens, t.kind ≠ .endOfInput) :
    ∃ kept, kept.Sublist tokens ∧ (parse kept).diagnostics = [] ∧
      (parse kept).value = (parse tokens).value ∧
      ((parse tokens).diagnostics = [] → kept = tokens) := by
  obtain ⟨kept, hKept, hWritten⟩ := exists_written_parse hPlain
  obtain ⟨hValue, hDiagnostics⟩ := program_of_written (c := .start kept) hWritten
  exact ⟨kept, hKept.sublist, hDiagnostics, hValue, hKept.all⟩

/-- `5 ) ; -3` stays two statements, although the one between them is left out. -/
theorem exists_sublist_parse_apart :
    let tokens : List Token := [⟨.integer, "5"⟩, ⟨.rightParen, ")"⟩, ⟨.semicolon, ";"⟩,
      ⟨.minus, "-"⟩, ⟨.integer, "3"⟩]
    (∀ t ∈ tokens, t.kind ≠ .endOfInput) ∧
      (parse tokens).diagnostics = [.noOperand .rightParen] ∧ (parse tokens).value.length = 2 ∧
      ∃ kept, kept.Sublist tokens ∧ (parse kept).diagnostics = [] ∧
        (parse kept).value = (parse tokens).value := by
  intro tokens
  have hPlain : ∀ t ∈ tokens, t.kind ≠ .endOfInput := by decide
  obtain ⟨kept, hSublist, hDiagnostics, hValue, -⟩ := exists_sublist_parse hPlain
  exact ⟨hPlain, by decide +kernel, by decide +kernel, kept, hSublist, hDiagnostics, hValue⟩

end MonkeyLang
