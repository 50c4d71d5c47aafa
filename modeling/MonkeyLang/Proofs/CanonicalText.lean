import MonkeyLang.Proofs.Lexing.Decomposition
import MonkeyLang.Proofs.Reading.Completeness
import MonkeyLang.Script
import MonkeyLang.Tree.Text

/-!
# The canonical text reads back

Without conditionals the canonical text of a program is a source text of the same program. It
puts every operation in parentheses, so a statement that is an operation ends with one and can
be followed by any other; another expression can only stand at the end.

* `Expr.Printable` and `Statement.Printable` say which trees have a source text at all.
* `Expr.Printed` relates a tree to the tokens of its text, wherever the text stands.
* `parse_textAll` : the text of a program is parsed to the same program without diagnostics.
-/

namespace MonkeyLang

open Token

/-! ## Trees that can be written -/

/-- A word that is no keyword. -/
def IsName (name : String) : Prop :=
  IsWord name.toList ∧ ∀ k : Token.Kind, k.spelling? ≠ some name

/-- No conditional is part of the expression, its names can be written and no integer in it is
negative. -/
inductive Expr.Printable : Expr → Prop
  | identifier {name} (h : IsName name) : Printable (.identifier name)
  | integer {value : Integer} (h : 0 ≤ value.toInt) : Printable (.integer value)
  | boolean (value) : Printable (.boolean value)
  | unary (op) {right} (h : right.Printable) : Printable (.unary op right)
  | binary (op) {left right} (hLeft : left.Printable) (hRight : right.Printable) :
      Printable (.binary op left right)

/-- The value of the statement is printable, and the name it binds can be written. -/
def Statement.Printable : Statement → Prop
  | .binding name value => IsName name ∧ value.Printable
  | .returning value => value.Printable
  | .expression _ value => value.Printable

/-- Expressions whose text is in parentheses. -/
def Expr.IsOperation : Expr → Prop
  | .unary _ _ | .binary _ _ _ => True
  | _ => False

/-- Statements whose text shows where it ends. -/
def Statement.IsDelimited : Statement → Prop
  | .expression _ value => value.IsOperation
  | _ => True

/-- The statement without the text it remembers of its first token. -/
def Statement.withoutLiteral : Statement → Statement
  | .expression _ value => .expression "" value
  | s => s

theorem Statement.text_withoutLiteral (s : Statement) : s.withoutLiteral.text = s.text := by
  cases s <;> simp [withoutLiteral, text]

theorem Statement.textAll_withoutLiteral (ss : List Statement) :
    textAll (ss.map withoutLiteral) = textAll ss := by
  induction ss with
  | nil => rfl
  | cons s ss ih => rw [List.map_cons, textAll, textAll, ih, text_withoutLiteral]

/-! ## Pieces of text -/

namespace Token

theorem Belongs.of_spelling {k : Kind} {s : String} (h : k.spelling? = some s) :
    Belongs ⟨k, s⟩ := by
  cases k <;> first | exact h | cases h

/-- A mark or a keyword in front of a blank. -/
theorem Lexed.spelled {k : Kind} {s : String} {ts : List Token} {rest : List Char}
    (h : Lexed ts rest) (hSpelling : k.spelling? = some s) :
    Lexed (⟨k, s⟩ :: ts) (s.toList ++ ' ' :: rest) := by
  refine h.space.token (.of_spelling hSpelling) ?_
  rintro _ ⟨⟩
  cases k <;> first | rfl | cases hSpelling

/-- A mark that no character extends. -/
theorem Lexed.mark {k : Kind} {s : String} {ts : List Token} {rest : List Char}
    (h : Lexed ts rest) (hSpelling : k.spelling? = some s) (hEnds : ∀ c, k.extendedBy c = false) :
    Lexed (⟨k, s⟩ :: ts) (s.toList ++ rest) :=
  h.token (.of_spelling hSpelling) fun c _ => hEnds c

end Token

/-! ## Expressions -/

/-- The tokens write the expression, and they are those of its text, whatever follows. Only an
operation may be followed by a character that could belong to a word. -/
structure Expr.Printed (e : Expr) (ts : List Token) : Prop where
  written : Written (.operand e) ts
  noOperator : NoOperator ts
  start : ∀ (rest : List Char), ∀ c ∈ (e.text.toList ++ rest).head?, c ≠ '='
  lexed : ∀ {us : List Token} {rest : List Char}, Lexed us rest →
    e.IsOperation ∨ (∀ c ∈ rest.head?, ¬ WordPart c) →
    Lexed (ts ++ us) (e.text.toList ++ rest)

theorem Written.chain_one {e e' : Expr} {ts us : List Token} (op : BinaryOperator)
    (h : Written (.operand e) ts) (h' : Written (.operand e') us) :
    Written (.chain e [(op, e')]) (ts ++ ⟨op.kind, op.text⟩ :: us) := by
  have hLinks : Written (.links [(op, e')]) (⟨op.kind, op.text⟩ :: (us ++ [])) :=
    .link op rfl h' .noLink
  rw [List.append_nil] at hLinks
  exact .chain h hLinks

theorem Expr.printed_identifier {name : String} (h : IsName name) :
    (Expr.identifier name).Printed [⟨.identifier, name⟩] where
  written := .identifier (t := ⟨.identifier, name⟩) rfl
  noOperator := rfl
  start rest := by
    obtain ⟨c, part, hName, hStart, -⟩ := h.1
    rw [text, hName]
    rintro _ ⟨⟩ rfl
    exact absurd hStart (by decide)
  lexed hRest hFollow := hRest.token h fun c hc =>
    decide_eq_false (hFollow.resolve_left id c hc)

theorem Expr.printed_boolean (value : Bool) :
    (Expr.boolean value).Printed
      [⟨if value then .trueWord else .falseWord, boolText value⟩] := by
  cases value with
  | true => exact {
      written := .trueWord rfl
      noOperator := rfl
      start := by rintro _ _ ⟨⟩ ⟨⟩
      lexed := fun hRest hFollow => hRest.token rfl fun c hc =>
        decide_eq_false (hFollow.resolve_left id c hc) }
  | false => exact {
      written := .falseWord rfl
      noOperator := rfl
      start := by rintro _ _ ⟨⟩ ⟨⟩
      lexed := fun hRest hFollow => hRest.token rfl fun c hc =>
        decide_eq_false (hFollow.resolve_left id c hc) }

/-- An integer that is not negative is written without a sign. -/
theorem Integer.text_eq {value : Integer} (h : 0 ≤ value.toInt) :
    (Integer.text value).toList = Nat.toDigits 10 value.toInt.natAbs := by
  rw [Integer.text, String.toList_ofList, if_neg (Int.not_lt.mpr h)]

theorem Expr.printed_integer {value : Integer} (h : 0 ≤ value.toInt) :
    (Expr.integer value).Printed [⟨.integer, Integer.text value⟩] := by
  have hDigits : IsNumber (Integer.text value).toList := by
    rw [Integer.text_eq h]
    exact ⟨Nat.toDigits_ne_nil, fun c hc =>
      Nat.isDigit_of_mem_toDigits (by decide) (by decide) hc⟩
  exact {
    written := .integer (t := ⟨.integer, Integer.text value⟩) rfl (Integer.ofText?_text value)
    noOperator := rfl
    start := by
      intro rest c hc
      obtain ⟨d, part, hText⟩ := List.exists_cons_of_ne_nil hDigits.1
      have hDigit := hDigits.2 d (by rw [hText]; exact List.mem_cons_self)
      rw [text, hText] at hc
      obtain rfl : d = c := Option.some.inj hc
      rintro rfl
      cases hDigit
    lexed := by
      intro us rest hRest hFollow
      refine hRest.token hDigits fun c hc => ?_
      refine Bool.eq_false_iff.mpr fun hDigit => hFollow.resolve_left id c hc ?_
      exact .inr (isDigit_iff.mp hDigit) }

/-- The tokens of an operation stand between parentheses. -/
def inParens (ts : List Token) : List Token :=
  ⟨.leftParen, "("⟩ :: (ts ++ [⟨.rightParen, ")"⟩])

/-- The parentheses around an operation are tokens of their own. -/
theorem Lexed.inParens {ts us : List Token} {cs rest : List Char} (hRest : Lexed us rest)
    (h : ∀ {vs : List Token} {text : List Char}, Lexed vs (')' :: text) →
      Lexed (ts ++ vs) (cs ++ ')' :: text)) :
    Lexed (MonkeyLang.inParens ts ++ us) ('(' :: (cs ++ ')' :: rest)) := by
  have hClosed : Lexed (⟨.rightParen, ")"⟩ :: us) (')' :: rest) :=
    hRest.mark (k := .rightParen) rfl fun _ => rfl
  have hOpened : Lexed (⟨.leftParen, "("⟩ :: (ts ++ ⟨.rightParen, ")"⟩ :: us)) _ :=
    (h hClosed).mark (k := .leftParen) rfl fun _ => rfl
  rw [MonkeyLang.inParens, List.cons_append, List.append_assoc]
  exact hOpened

/-- A unary operation is printed in parentheses, with the operator right before its operand. -/
theorem Expr.Printed.unary {e : Expr} {ts : List Token} (h : e.Printed ts) (op : UnaryOperator) :
    (Expr.unary op e).Printed (inParens (⟨op.kind, op.text⟩ :: ts)) where
  written := by
    have hChain := (Written.unary (t := ⟨op.kind, op.text⟩) op rfl h.written).chain_single
    have hGroup := Written.group (l := ⟨.leftParen, "("⟩) (r := ⟨.rightParen, ")"⟩) rfl rfl hChain
    rwa [Chain.tree_nil] at hGroup
  noOperator := rfl
  start rest := by
    rw [text]
    simp only [String.toList_append, List.append_assoc]
    rintro _ ⟨⟩ ⟨⟩
  lexed {us rest} hRest _ := by
    have hInner : ∀ {vs : List Token} {text : List Char}, Lexed vs (')' :: text) →
        Lexed (⟨op.kind, op.text⟩ :: ts ++ vs)
          (op.text.toList ++ e.text.toList ++ ')' :: text) := by
      intro vs text hClosed
      rw [List.append_assoc]
      refine (h.lexed hClosed (.inr ?_)).token (.of_spelling (UnaryOperator.spelling?_kind op)) ?_
      · rintro _ ⟨⟩
        decide
      · intro c hc
        have hStart := h.start (')' :: text) c hc
        cases op with
        | not => exact decide_eq_false hStart
        | negate => rfl
    have hLexed := Lexed.inParens hRest hInner
    simpa [text, List.append_assoc] using hLexed

theorem Expr.Printed.binary {l r : Expr} {ts us : List Token} (hLeft : l.Printed ts)
    (hRight : r.Printed us) (op : BinaryOperator) :
    (Expr.binary op l r).Printed (inParens (ts ++ ⟨op.kind, op.text⟩ :: us)) where
  written := by
    have hChain := hLeft.written.chain_one op hRight.written
    have hGroup := Written.group (l := ⟨.leftParen, "("⟩) (r := ⟨.rightParen, ")"⟩) rfl rfl hChain
    have hTree : Chain.tree l [(op, r)] = .binary op l r := by
      have hSplit := @Chain.tree_split l r [] [] op (List.forall_mem_nil _) (List.forall_mem_nil _)
      rwa [Chain.tree_nil, Chain.tree_nil] at hSplit
    rwa [hTree] at hGroup
  noOperator := rfl
  start rest := by
    rw [text]
    simp only [String.toList_append, List.append_assoc]
    rintro _ ⟨⟩ ⟨⟩
  lexed {vs rest} hRest _ := by
    have hInner : ∀ {vs : List Token} {text : List Char}, Lexed vs (')' :: text) →
        Lexed (ts ++ ⟨op.kind, op.text⟩ :: us ++ vs)
          (l.text.toList ++ ' ' :: (op.text.toList ++ ' ' :: r.text.toList) ++ ')' :: text) := by
      intro vs text hClosed
      have hRightLexed := hRight.lexed hClosed (.inr (by rintro _ ⟨⟩; decide))
      have hOp := (hRightLexed.spelled (BinaryOperator.spelling?_kind op)).space
      have hLexed := hLeft.lexed hOp (.inr (by rintro _ ⟨⟩; decide))
      simpa [List.append_assoc] using hLexed
    have hLexed := Lexed.inParens hRest hInner
    simpa [text, List.append_assoc] using hLexed

/-- Every printable expression is printed, by induction over its form. -/
theorem Expr.Printable.exists_printed {e : Expr} (h : e.Printable) : ∃ ts, e.Printed ts := by
  induction h with
  | identifier h => exact ⟨_, printed_identifier h⟩
  | integer h => exact ⟨_, printed_integer h⟩
  | boolean value => exact ⟨_, printed_boolean value⟩
  | unary op _ ih =>
    obtain ⟨ts, h⟩ := ih
    exact ⟨_, h.unary op⟩
  | binary op _ _ ihLeft ihRight =>
    obtain ⟨ts, hLeft⟩ := ihLeft
    obtain ⟨us, hRight⟩ := ihRight
    exact ⟨_, hLeft.binary hRight op⟩

/-! ## Statements -/

/-- The tokens write the program up to the literals of its statements, they are those of its
text, and a statement in front of them ends where they begin. -/
structure Statement.PrintedAll (ss : List Statement) (ts : List Token) : Prop where
  written : ∃ ss', Written (.statements ss') ts ∧ ss'.map withoutLiteral = ss.map withoutLiteral
  noOperator : NoOperator ts
  lexed : Lexed ts (textAll ss).toList

namespace Statement

theorem printedAll_nil : PrintedAll [] [] where
  written := ⟨[], .noStatement, rfl⟩
  noOperator := rfl
  lexed := .nil .nil

variable {ss : List Statement} {us : List Token} {value : Expr} {ts : List Token}

/-- The semicolon that a `let` and a `return` end with. -/
theorem PrintedAll.lexed_semicolon (h : PrintedAll ss us) (hValue : value.Printed ts) :
    Lexed (ts ++ ⟨.semicolon, ";"⟩ :: us) (value.text.toList ++ ';' :: (textAll ss).toList) := by
  have hClosed : Lexed (⟨.semicolon, ";"⟩ :: us) (';' :: (textAll ss).toList) :=
    h.lexed.mark (k := .semicolon) rfl fun _ => rfl
  exact hValue.lexed hClosed (.inr (by rintro _ ⟨⟩; decide))

theorem PrintedAll.binding (h : PrintedAll ss us) (hValue : value.Printed ts) {name : String}
    (hName : IsName name) :
    PrintedAll (.binding name value :: ss)
      (⟨.letWord, "let"⟩ :: ⟨.identifier, name⟩ :: ⟨.assign, "="⟩ ::
        (ts ++ ⟨.semicolon, ";"⟩ :: us)) where
  written := by
    obtain ⟨ss', hRest, hSame⟩ := h.written
    have hStatement := Written.binding (w := ⟨.letWord, "let"⟩) (n := ⟨.identifier, name⟩)
      (a := ⟨.assign, "="⟩) rfl rfl rfl hValue.written.chain_single
    rw [Chain.tree_nil] at hStatement
    exact ⟨_, .closed (t := ⟨.semicolon, ";"⟩) rfl hStatement hRest,
      congrArg (Statement.binding name value :: ·) hSame⟩
  noOperator := rfl
  lexed := by
    have hAssign := ((h.lexed_semicolon hValue).spelled (k := .assign) (s := "=") rfl).space
    have hNamed := hAssign.token (t := ⟨.identifier, name⟩) hName (by rintro _ ⟨⟩; rfl)
    have hLexed := hNamed.spelled (k := .letWord) rfl
    simpa [textAll, text, List.append_assoc] using hLexed

theorem PrintedAll.returning (h : PrintedAll ss us) (hValue : value.Printed ts) :
    PrintedAll (.returning value :: ss)
      (⟨.returnWord, "return"⟩ :: (ts ++ ⟨.semicolon, ";"⟩ :: us)) where
  written := by
    obtain ⟨ss', hRest, hSame⟩ := h.written
    have hStatement := Written.returning (w := ⟨.returnWord, "return"⟩) rfl
      hValue.written.chain_single
    rw [Chain.tree_nil] at hStatement
    exact ⟨_, .closed (t := ⟨.semicolon, ";"⟩) rfl hStatement hRest,
      congrArg (Statement.returning value :: ·) hSame⟩
  noOperator := rfl
  lexed := by
    have hLexed := (h.lexed_semicolon hValue).spelled (k := .returnWord) rfl
    simpa [textAll, text, List.append_assoc] using hLexed

/-- An operation is delimited by its parentheses; what is not may only come last. -/
theorem PrintedAll.expression (h : PrintedAll ss us) (hValue : value.Printed ts)
    (literal : String) (hDelimited : value.IsOperation ∨ ss = []) :
    PrintedAll (.expression literal value :: ss) (ts ++ us) where
  written := by
    obtain ⟨ss', hRest, hSame⟩ := h.written
    have hNil := ne_nil_of_startsOperand hValue.written.starts
    obtain ⟨t, ts, rfl⟩ := List.exists_cons_of_ne_nil hNil
    have hStatement := Written.expression hValue.written.chain_single
    rw [Chain.tree_nil] at hStatement
    exact ⟨_, .juxtaposed h.noOperator hStatement hRest,
      congrArg (Statement.expression "" value :: ·) hSame⟩
  noOperator := by
    have hNil := ne_nil_of_startsOperand hValue.written.starts
    rw [NoOperator, firstKind_append_of_ne_nil us hNil]
    exact hValue.noOperator
  lexed := by
    rw [textAll, text, String.toList_append]
    refine hValue.lexed h.lexed (hDelimited.imp_right ?_)
    rintro rfl _ ⟨⟩

/-- Programs that can be written have a text of that kind. -/
theorem exists_printedAll {ss : List Statement} (hPrintable : ∀ s ∈ ss, s.Printable)
    (hDelimited : ∀ s ∈ ss.dropLast, s.IsDelimited) : ∃ ts, PrintedAll ss ts := by
  induction ss with
  | nil => exact ⟨[], printedAll_nil⟩
  | cons s ss ih =>
    obtain ⟨hHead, hTail⟩ := List.forall_mem_cons.mp hPrintable
    have hDelimitedTail : ∀ s ∈ ss.dropLast, s.IsDelimited := by
      intro s' hs'
      refine hDelimited s' ?_
      cases ss with
      | nil => cases hs'
      | cons _ _ => exact List.mem_cons_of_mem _ hs'
    obtain ⟨us, hRest⟩ := ih hTail hDelimitedTail
    cases s with
    | binding name value =>
      obtain ⟨ts, hValue⟩ := hHead.2.exists_printed
      exact ⟨_, hRest.binding hValue hHead.1⟩
    | returning value =>
      obtain ⟨ts, hValue⟩ := Expr.Printable.exists_printed hHead
      exact ⟨_, hRest.returning hValue⟩
    | expression literal value =>
      obtain ⟨ts, hValue⟩ := Expr.Printable.exists_printed hHead
      refine ⟨_, hRest.expression hValue literal ?_⟩
      cases ss with
      | nil => exact .inr rfl
      | cons _ _ => exact .inl (hDelimited _ List.mem_cons_self)

end Statement

/-- The canonical text of a program without conditionals, in which only the last statement may
be an expression that is no operation, is parsed without diagnostics to the same program, up to
the literals that the statements remember, and so to a program with the same text. -/
theorem parse_textAll {ss : List Statement} (hPrintable : ∀ s ∈ ss, s.Printable)
    (hDelimited : ∀ s ∈ ss.dropLast, s.IsDelimited) :
    let reread := Script.parse (Statement.textAll ss)
    reread.diagnostics = [] ∧
      reread.value.map Statement.withoutLiteral = ss.map Statement.withoutLiteral ∧
      Statement.textAll reread.value = Statement.textAll ss := by
  intro reread
  obtain ⟨ts, hPrinted⟩ := Statement.exists_printedAll hPrintable hDelimited
  obtain ⟨ss', hWritten, hSame⟩ := hPrinted.written
  have hTokens : ofSource (Statement.textAll ss) = ts := hPrinted.lexed.eq_scan.symm
  obtain ⟨hValue, hDiagnostics⟩ :=
    program_of_written (c := .start (ofSource (Statement.textAll ss))) (hTokens ▸ hWritten)
  have hReread : reread.value.map Statement.withoutLiteral = ss.map Statement.withoutLiteral := by
    rw [← hSame, ← hValue]
    rfl
  refine ⟨hDiagnostics, hReread, ?_⟩
  rw [← Statement.textAll_withoutLiteral reread.value, hReread, Statement.textAll_withoutLiteral]

/-- `let x = (-7);(x == y)(!x)true`. The tree remembers an `x` and a `!` where the text of it has
parentheses. -/
theorem parse_textAll_minus :
    let ss : List Statement := [.binding "x" (.unary .negate (.integer 7)),
      .expression "x" (.binary .equal (.identifier "x") (.identifier "y")),
      .expression "!" (.unary .not (.identifier "x")), .expression "true" (.boolean true)]
    let reread := Script.parse (Statement.textAll ss)
    (∀ s ∈ ss, s.Printable) ∧ (∀ s ∈ ss.dropLast, s.IsDelimited) ∧
      reread.diagnostics = [] ∧
      reread.value.map Statement.withoutLiteral = ss.map Statement.withoutLiteral ∧
      Statement.textAll reread.value = Statement.textAll ss := by
  intro ss reread
  have hName : ∀ c : Char, WordStart c →
      (∀ k : Token.Kind, k.spelling? ≠ some c.toString) → IsName c.toString :=
    fun c hStart hKeyword => ⟨by simpa using isWord_singleton hStart, hKeyword⟩
  have hX : IsName "x" := hName 'x' (by decide) fun k => by cases k <;> decide
  have hY : IsName "y" := hName 'y' (by decide) fun k => by cases k <;> decide
  have hPrintable : ∀ s ∈ ss, s.Printable := by
    simp only [ss, List.forall_mem_cons]
    exact ⟨⟨hX, .unary _ (.integer (by decide))⟩, .binary _ (.identifier hX) (.identifier hY),
      .unary _ (.identifier hX), .boolean true, List.forall_mem_nil _⟩
  have hDelimited : ∀ s ∈ ss.dropLast, s.IsDelimited := by
    simp [ss, Statement.IsDelimited, Expr.IsOperation]
  exact ⟨hPrintable, hDelimited, parse_textAll hPrintable hDelimited⟩

end MonkeyLang
