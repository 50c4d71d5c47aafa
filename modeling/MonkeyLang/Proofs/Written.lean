import MonkeyLang.Proofs.Chain
import MonkeyLang.Proofs.Grammar
import MonkeyLang.Proofs.Reading.Induction

/-!
# How trees are written

`Written p ts` says that the tokens `ts` write the phrase `p`, without any mention of a cursor.
Other than the grammar it fixes the tree, and it is not ambiguous: a statement without a
semicolon must not be followed by a token that could continue its expression.

A phrase has one form for each part of a program that is read in one go, so a fact about
reading and a fact about writing can be matched form by form.

* `Written.starts` : the tokens a phrase can start with.
* `Written.derived` : what is written can be derived from the grammar.
* `Derives.writable` : what can be derived from the grammar, with integers in range, writes some
  phrase. An ambiguous minus is taken to continue the expression before it
  (`Written.join_statements`).
-/

namespace MonkeyLang

/-- The kinds of token a statement can start with. -/
def Token.Kind.startsStatement (k : Token.Kind) : Bool :=
  k = .letWord || k = .returnWord || k.startsOperand

/-- No operator stands at the beginning of the tokens. -/
def NoOperator (ts : List Token) : Prop :=
  BinaryOperator.ofKind? (firstKind ts) = none

theorem NoOperator.of_append {ts us : List Token} (h : NoOperator (ts ++ us)) :
    NoOperator ts := by
  cases ts with
  | nil => rfl
  | cons t ts => exact h

/-- The parts of a program together with their trees. -/
inductive Phrase
  | operand (tree : Expr)
  | links (links : List Chain.Link)
  | chain (first : Expr) (links : List Chain.Link)
  | block (trees : List Statement)
  | alternative (trees : Option (List Statement))
  | statement (tree : Statement)
  | statements (trees : List Statement)

/-- The tokens that write a phrase. The semicolon after a statement belongs to the list of
statements it stands in. -/
inductive Written : Phrase → List Token → Prop
  | identifier {t} (h : t.kind = .identifier) : Written (.operand (.identifier t.literal)) [t]
  | integer {t value} (h : t.kind = .integer) (hValue : Integer.ofText? t.literal = some value) :
      Written (.operand (.integer value)) [t]
  | trueWord {t} (h : t.kind = .trueWord) : Written (.operand (.boolean true)) [t]
  | falseWord {t} (h : t.kind = .falseWord) : Written (.operand (.boolean false)) [t]
  | unary {t e ts} (op : UnaryOperator) (h : t.kind = op.kind) (right : Written (.operand e) ts) :
      Written (.operand (.unary op e)) (t :: ts)
  | group {l r first links ts} (hLeft : l.kind = .leftParen) (hRight : r.kind = .rightParen)
      (inner : Written (.chain first links) ts) :
      Written (.operand (Chain.tree first links)) (l :: (ts ++ [r]))
  | conditional {i l r first links ss other ts us vs} (hIf : i.kind = .ifWord)
      (hLeft : l.kind = .leftParen) (hRight : r.kind = .rightParen)
      (test : Written (.chain first links) ts) (consequence : Written (.block ss) us)
      (alternative : Written (.alternative other) vs) :
      Written (.operand (.conditional (Chain.tree first links) ss other))
        (i :: l :: (ts ++ r :: (us ++ vs)))
  | noLink : Written (.links []) []
  | link {t e links ts us} (op : BinaryOperator) (h : t.kind = op.kind)
      (operand : Written (.operand e) ts) (rest : Written (.links links) us) :
      Written (.links ((op, e) :: links)) (t :: (ts ++ us))
  | chain {first links ts us} (operand : Written (.operand first) ts)
      (rest : Written (.links links) us) : Written (.chain first links) (ts ++ us)
  | block {l r ss ts} (hLeft : l.kind = .leftBrace) (hRight : r.kind = .rightBrace)
      (body : Written (.statements ss) ts) : Written (.block ss) (l :: (ts ++ [r]))
  | noAlternative : Written (.alternative none) []
  | alternative {e ss ts} (h : e.kind = .elseWord) (body : Written (.block ss) ts) :
      Written (.alternative (some ss)) (e :: ts)
  | binding {w n a first links ts} (hLet : w.kind = .letWord) (hName : n.kind = .identifier)
      (hAssign : a.kind = .assign) (value : Written (.chain first links) ts) :
      Written (.statement (.binding n.literal (Chain.tree first links))) (w :: n :: a :: ts)
  | returning {w first links ts} (hReturn : w.kind = .returnWord)
      (value : Written (.chain first links) ts) :
      Written (.statement (.returning (Chain.tree first links))) (w :: ts)
  | expression {t first links ts} (value : Written (.chain first links) (t :: ts)) :
      Written (.statement (.expression t.literal (Chain.tree first links))) (t :: ts)
  | noStatement : Written (.statements []) []
  | closed {t s ss ts us} (h : t.kind = .semicolon) (head : Written (.statement s) ts)
      (tail : Written (.statements ss) us) : Written (.statements (s :: ss)) (ts ++ t :: us)
  | juxtaposed {s ss ts us} (h : NoOperator us) (head : Written (.statement s) ts)
      (tail : Written (.statements ss) us) : Written (.statements (s :: ss)) (ts ++ us)

theorem Token.IsOperand.written {t : Token} {e : Expr} (h : t.IsOperand e) :
    Written (.operand e) [t] := by
  cases h with
  | identifier hKind => exact .identifier hKind
  | integer hKind hValue => exact .integer hKind hValue
  | trueWord hKind => exact .trueWord hKind
  | falseWord hKind => exact .falseWord hKind

/-! ## First tokens -/

theorem firstKind_append_of_ne_nil {ts : List Token} (us : List Token) (h : ts ≠ []) :
    firstKind (ts ++ us) = firstKind ts := by
  cases ts with
  | nil => exact absurd rfl h
  | cons t ts => rfl

theorem ne_nil_of_startsOperand {ts : List Token} (h : (firstKind ts).startsOperand = true) :
    ts ≠ [] := by
  rintro rfl
  cases h

theorem ne_nil_of_startsStatement {ts : List Token}
    (h : (firstKind ts).startsStatement = true) : ts ≠ [] := by
  rintro rfl
  cases h

theorem Token.Kind.startsStatement_of_startsOperand {k : Token.Kind}
    (h : k.startsOperand = true) : k.startsStatement = true := by
  simp [startsStatement, h]

/-- The kinds of token a phrase can start with, where it cannot be empty. -/
def Phrase.Starts : Phrase → Token.Kind → Prop
  | .operand _, k => k.startsOperand = true
  | .chain _ _, k => k.startsOperand = true
  | .statement _, k => k.startsStatement = true
  | _, _ => True

/-- A phrase that cannot be empty starts with a token of the kinds it can start with. -/
theorem Written.starts {p : Phrase} {ts : List Token} (h : Written p ts) :
    p.Starts (firstKind ts) := by
  induction h with
  | identifier h | integer h | trueWord h | falseWord h =>
    simp [Phrase.Starts, h, Token.Kind.startsOperand]
  | unary op h => cases op <;> simp [Phrase.Starts, h, Token.Kind.startsOperand, UnaryOperator.kind]
  | group h => simp [Phrase.Starts, h, Token.Kind.startsOperand]
  | conditional h => simp [Phrase.Starts, h, Token.Kind.startsOperand]
  | chain _ _ ih _ =>
    simp only [Phrase.Starts] at ih ⊢
    rwa [firstKind_append_of_ne_nil _ (ne_nil_of_startsOperand ih)]
  | binding h => simp [Phrase.Starts, h, Token.Kind.startsStatement]
  | returning h => simp [Phrase.Starts, h, Token.Kind.startsStatement]
  | expression _ ih => exact Token.Kind.startsStatement_of_startsOperand ih
  | _ => trivial

theorem Written.starts_statements {ss : List Statement} {ts : List Token}
    (h : Written (.statements ss) ts) (hNil : ts ≠ []) :
    (firstKind ts).startsStatement = true := by
  cases h with
  | noStatement => exact absurd rfl hNil
  | closed _ head _ | juxtaposed _ head _ =>
    rw [firstKind_append_of_ne_nil _ (ne_nil_of_startsStatement head.starts)]
    exact head.starts

/-! ## Joining phrases -/

theorem Written.chain_single {e : Expr} {ts : List Token} (h : Written (.operand e) ts) :
    Written (.chain e []) ts := by
  have hChain := Written.chain h .noLink
  rwa [List.append_nil] at hChain

theorem Written.chain_parts {first : Expr} {links : List Chain.Link} {ts : List Token}
    (h : Written (.chain first links) ts) :
    ∃ us vs, ts = us ++ vs ∧ Written (.operand first) us ∧ Written (.links links) vs := by
  cases h with
  | chain operand rest => exact ⟨_, _, rfl, operand, rest⟩

theorem Written.operand_of_chain {first : Expr} {ts : List Token}
    (h : Written (.chain first []) ts) : Written (.operand first) ts := by
  cases h with
  | chain operand rest =>
    cases rest
    rwa [List.append_nil]

theorem Written.append_links {links links' : List Chain.Link} {ts us : List Token}
    (h : Written (.links links) ts) (h' : Written (.links links') us) :
    Written (.links (links ++ links')) (ts ++ us) := by
  induction links generalizing ts with
  | nil =>
    cases h
    exact h'
  | cons link links ih =>
    cases h with
    | link op hOp operand rest =>
      rw [List.cons_append, List.cons_append, List.append_assoc]
      exact .link op hOp operand (ih rest)

/-- An operator joins two chains into one. -/
theorem Written.join_chain {first first' : Expr} {links links' : List Chain.Link} {t : Token}
    {ts us : List Token} (h : Written (.chain first links) ts) (op : BinaryOperator)
    (ht : t.kind = op.kind) (h' : Written (.chain first' links') us) :
    Written (.chain first (links ++ (op, first') :: links')) (ts ++ t :: us) := by
  cases h with
  | chain operand rest =>
    cases h' with
    | chain operand' rest' =>
      rw [List.append_assoc]
      exact .chain operand (rest.append_links (.link op ht operand' rest'))

/-- An operand that starts with a token that is also an operator between operands starts with
a minus, and is one without it. -/
theorem Written.operand_of_operator {e : Expr} {ts : List Token}
    (h : Written (.operand e) ts) (hOp : ¬ NoOperator ts) :
    ∃ t us e', ts = t :: us ∧ t.kind = BinaryOperator.subtract.kind ∧
      Written (.operand e') us := by
  cases h with
  | identifier h | integer h | trueWord h | falseWord h =>
    exact absurd (by rw [NoOperator, firstKind_cons, h]; rfl) hOp
  | group h | conditional h =>
    exact absurd (by rw [NoOperator, firstKind_cons, h]; rfl) hOp
  | unary op h right =>
    cases op with
    | not => exact absurd (by rw [NoOperator, firstKind_cons, h]; rfl) hOp
    | negate => exact ⟨_, _, _, rfl, h, right⟩

/-- A chain that starts with an operator starts with a minus, which belongs to its first operand. -/
theorem Written.chain_of_operator {first : Expr} {links : List Chain.Link} {ts : List Token}
    (h : Written (.chain first links) ts) (hOp : ¬ NoOperator ts) :
    ∃ t us first', ts = t :: us ∧ t.kind = BinaryOperator.subtract.kind ∧
      Written (.chain first' links) us := by
  cases h with
  | @chain _ _ ts₁ ts₂ operand rest =>
    rw [NoOperator, firstKind_append_of_ne_nil _ (ne_nil_of_startsOperand operand.starts)] at hOp
    obtain ⟨t, us, e', rfl, ht, operand'⟩ := operand.operand_of_operator hOp
    exact ⟨t, us ++ ts₂, e', rfl, ht, .chain operand' rest⟩

/-- A statement that starts with an operator continues the statement before it. -/
theorem Written.join_statement {s s' : Statement} {ts us : List Token}
    (h : Written (.statement s) ts) (h' : Written (.statement s') us) (hOp : ¬ NoOperator us) :
    ∃ joined, Written (.statement joined) (ts ++ us) := by
  have hChain : ∃ first links, Written (.chain first links) us := by
    cases h' with
    | binding hLet => exact absurd (by rw [NoOperator, firstKind_cons, hLet]; rfl) hOp
    | returning hReturn => exact absurd (by rw [NoOperator, firstKind_cons, hReturn]; rfl) hOp
    | expression value => exact ⟨_, _, value⟩
  obtain ⟨first, links, hValue⟩ := hChain
  obtain ⟨t, us, first', rfl, ht, rest⟩ := hValue.chain_of_operator hOp
  cases h with
  | binding hLet hName hAssign value =>
    exact ⟨_, .binding hLet hName hAssign (value.join_chain .subtract ht rest)⟩
  | returning hReturn value => exact ⟨_, .returning hReturn (value.join_chain .subtract ht rest)⟩
  | expression value => exact ⟨_, .expression (value.join_chain .subtract ht rest)⟩

/-- A statement can be put in front of others without a semicolon, if need be as a part of the
first of them. -/
theorem Written.join_statements {s : Statement} {ss : List Statement} {ts us : List Token}
    (h : Written (.statement s) ts) (h' : Written (.statements ss) us) :
    ∃ joined, Written (.statements joined) (ts ++ us) := by
  by_cases hOp : NoOperator us
  · exact ⟨_, .juxtaposed hOp h h'⟩
  cases h' with
  | noStatement => exact absurd rfl hOp
  | closed hSemicolon head tail =>
    rw [NoOperator, firstKind_append_of_ne_nil _ (ne_nil_of_startsStatement head.starts)] at hOp
    obtain ⟨joined, hJoined⟩ := h.join_statement head hOp
    rw [← List.append_assoc]
    exact ⟨_, .closed hSemicolon hJoined tail⟩
  | juxtaposed hNext head tail =>
    rw [NoOperator, firstKind_append_of_ne_nil _ (ne_nil_of_startsStatement head.starts)] at hOp
    obtain ⟨joined, hJoined⟩ := h.join_statement head hOp
    rw [← List.append_assoc]
    exact ⟨_, .juxtaposed hNext hJoined tail⟩

/-! ## Writing and the grammar -/

/-- That the kinds of its tokens can be derived, for each form of phrase. -/
def Phrase.Derived : Phrase → List Token.Kind → Prop
  | .operand _, ks => Derives .operand ks
  | .links _, ks => ∀ u, Derives .operand u → Derives .expression (u ++ ks)
  | .chain _ _, ks => Derives .expression ks
  | .block _, ks => Derives .block ks
  | .alternative _, ks => Derives .alternative ks
  | .statement _, ks => ∀ terminator ∈ terminators, Derives .statement (ks ++ terminator)
  | .statements _, ks => Derives .statements ks

/-- What is written can be derived in the grammar. -/
theorem Written.derived {p : Phrase} {ts : List Token} (h : Written p ts) :
    p.Derived (ts.map Token.kind) := by
  induction h with
  | identifier h =>
    rw [List.map_singleton, h]
    exact .identifier
  | integer h _ =>
    rw [List.map_singleton, h]
    exact .integer
  | trueWord h =>
    rw [List.map_singleton, h]
    exact .trueWord
  | falseWord h =>
    rw [List.map_singleton, h]
    exact .falseWord
  | unary op h _ ih =>
    rw [List.map_cons, h]
    exact .unary op ih
  | group hLeft hRight _ ih =>
    rw [List.map_cons, List.map_append, List.map_singleton, hLeft, hRight]
    exact .group ih
  | conditional hIf hLeft hRight _ _ _ ihTest ihConsequence ihAlternative =>
    simp only [List.map_cons, List.map_append, hIf, hLeft, hRight]
    exact .conditional ihTest ihConsequence ihAlternative
  | noLink =>
    intro u hu
    rw [List.map_nil, List.append_nil]
    exact .lastOperand hu
  | link op h _ _ ihOperand ihRest =>
    intro u hu
    rw [List.map_cons, List.map_append, h]
    exact .operation hu op (ihRest _ ihOperand)
  | chain _ _ ihOperand ihRest =>
    rw [List.map_append]
    exact ihRest _ ihOperand
  | block hLeft hRight _ ih =>
    rw [List.map_cons, List.map_append, List.map_singleton, hLeft, hRight]
    exact .block ih
  | noAlternative => exact .noAlternative
  | alternative h _ ih =>
    rw [List.map_cons, h]
    exact .alternative ih
  | binding hLet hName hAssign _ ih =>
    intro terminator hTerminator
    simp only [List.map_cons, hLet, hName, hAssign]
    exact .binding ih hTerminator
  | returning hReturn _ ih =>
    intro terminator hTerminator
    rw [List.map_cons, hReturn]
    exact .returning ih hTerminator
  | expression _ ih =>
    intro terminator hTerminator
    exact .expression ih hTerminator
  | noStatement => exact .noStatement
  | closed h _ _ ihHead ihTail =>
    rw [List.map_append, List.map_cons, h, List.append_cons]
    exact .moreStatements (ihHead [.semicolon] (by decide)) ihTail
  | juxtaposed _ _ _ ihHead ihTail =>
    have hHead := ihHead [] (by decide)
    rw [List.append_nil] at hHead
    rw [List.map_append]
    exact .moreStatements hHead ihTail

/-- The integers of what is written are in range. -/
theorem Written.integersInRange {p : Phrase} {ts : List Token} (h : Written p ts) :
    IntegersInRange ts := by
  induction h with
  | integer h hValue =>
    simp [integersInRange_cons, integersInRange_nil, hValue]
  | unary op h _ ih =>
    cases op <;> simp_all [integersInRange_cons, UnaryOperator.kind]
  | link op h _ _ _ _ =>
    cases op <;> simp_all [integersInRange_cons, integersInRange_append, BinaryOperator.kind]
  | _ =>
    simp_all [integersInRange_nil, integersInRange_cons, integersInRange_append]

/-- That some tree is written, for each nonterminal. -/
def Nonterminal.Writable : Nonterminal → List Token → Prop
  | .statements, ts => ∃ ss, Written (.statements ss) ts
  | .statement, ts =>
    ∃ s us, Written (.statement s) us ∧ (ts = us ∨ ∃ t, t.kind = .semicolon ∧ ts = us ++ [t])
  | .expression, ts => ∃ first links, Written (.chain first links) ts
  | .operand, ts => ∃ e, Written (.operand e) ts
  | .block, ts => ∃ ss, Written (.block ss) ts
  | .alternative, ts => ∃ other, Written (.alternative other) ts

theorem writable_end (ts : List Token) {us : List Token} {terminator : List Token.Kind}
    (hKinds : us.map Token.kind = terminator) (h : terminator ∈ terminators) :
    ts ++ us = ts ∨ ∃ t : Token, t.kind = .semicolon ∧ ts ++ us = ts ++ [t] := by
  simp only [terminators, List.mem_cons, List.not_mem_nil, or_false] at h
  rcases h with rfl | rfl
  · rw [List.map_eq_nil_iff.mp hKinds, List.append_nil]
    exact Or.inl rfl
  · obtain ⟨t, rfl, ht⟩ := List.map_eq_singleton_iff.mp hKinds
    exact Or.inr ⟨t, ht, rfl⟩

/-- Whatever can be derived from the grammar writes a tree, if its integers are in range. -/
theorem Derives.writable {n : Nonterminal} {ks : List Token.Kind} (h : Derives n ks)
    {ts : List Token} (hKinds : ts.map Token.kind = ks) (hRange : IntegersInRange ts) :
    n.Writable ts := by
  induction h generalizing ts with
  | noStatement =>
    obtain rfl := List.map_eq_nil_iff.mp hKinds
    exact ⟨[], .noStatement⟩
  | moreStatements _ _ ihHead ihTail =>
    obtain ⟨us, vs, rfl, hHead, hTail⟩ := List.map_eq_append_iff.mp hKinds
    rw [integersInRange_append] at hRange
    obtain ⟨s, us, hStatement, rfl | ⟨t, ht, rfl⟩⟩ := ihHead hHead hRange.1
    · obtain ⟨ss, hStatements⟩ := ihTail hTail hRange.2
      exact hStatement.join_statements hStatements
    · obtain ⟨ss, hStatements⟩ := ihTail hTail hRange.2
      rw [← List.append_cons]
      exact ⟨s :: ss, .closed ht hStatement hStatements⟩
  | binding _ h ih =>
    obtain ⟨w, ts, rfl, hLet, hKinds⟩ := List.map_eq_cons_iff.mp hKinds
    obtain ⟨n, ts, rfl, hName, hKinds⟩ := List.map_eq_cons_iff.mp hKinds
    obtain ⟨a, ts, rfl, hAssign, hKinds⟩ := List.map_eq_cons_iff.mp hKinds
    obtain ⟨us, vs, rfl, hValue, hEnd⟩ := List.map_eq_append_iff.mp hKinds
    simp only [integersInRange_cons, integersInRange_append] at hRange
    obtain ⟨first, links, hChain⟩ := ih hValue hRange.2.2.2.1
    exact ⟨_, _, .binding hLet hName hAssign hChain, writable_end (w :: n :: a :: us) hEnd h⟩
  | returning _ h ih =>
    obtain ⟨w, ts, rfl, hReturn, hKinds⟩ := List.map_eq_cons_iff.mp hKinds
    obtain ⟨us, vs, rfl, hValue, hEnd⟩ := List.map_eq_append_iff.mp hKinds
    simp only [integersInRange_cons, integersInRange_append] at hRange
    obtain ⟨first, links, hChain⟩ := ih hValue hRange.2.1
    exact ⟨_, _, .returning hReturn hChain, writable_end (w :: us) hEnd h⟩
  | expression _ h ih =>
    obtain ⟨us, vs, rfl, hValue, hEnd⟩ := List.map_eq_append_iff.mp hKinds
    rw [integersInRange_append] at hRange
    obtain ⟨first, links, hChain⟩ := ih hValue hRange.1
    cases us with
    | nil => cases hChain.starts
    | cons t us => exact ⟨_, _, .expression hChain, writable_end (t :: us) hEnd h⟩
  | lastOperand _ ih =>
    obtain ⟨e, hOperand⟩ := ih hKinds hRange
    exact ⟨e, [], hOperand.chain_single⟩
  | operation _ op _ ihOperand ihRest =>
    obtain ⟨us, vs, rfl, hOperand, hRest⟩ := List.map_eq_append_iff.mp hKinds
    obtain ⟨t, vs, rfl, ht, hRest⟩ := List.map_eq_cons_iff.mp hRest
    simp only [integersInRange_cons, integersInRange_append] at hRange
    obtain ⟨e, hFirst⟩ := ihOperand hOperand hRange.1
    obtain ⟨e', links, hChain⟩ := ihRest hRest hRange.2.2
    exact ⟨_, _, hFirst.chain_single.join_chain op ht hChain⟩
  | unary op _ ih =>
    obtain ⟨t, ts, rfl, ht, hKinds⟩ := List.map_eq_cons_iff.mp hKinds
    obtain ⟨e, hOperand⟩ := ih hKinds (integersInRange_cons.mp hRange).2
    exact ⟨_, .unary op ht hOperand⟩
  | identifier =>
    obtain ⟨t, rfl, ht⟩ := List.map_eq_singleton_iff.mp hKinds
    exact ⟨_, .identifier ht⟩
  | integer =>
    obtain ⟨t, rfl, ht⟩ := List.map_eq_singleton_iff.mp hKinds
    obtain ⟨value, hValue⟩ := Option.isSome_iff_exists.mp (hRange t List.mem_cons_self ht)
    exact ⟨_, .integer ht hValue⟩
  | trueWord =>
    obtain ⟨t, rfl, ht⟩ := List.map_eq_singleton_iff.mp hKinds
    exact ⟨_, .trueWord ht⟩
  | falseWord =>
    obtain ⟨t, rfl, ht⟩ := List.map_eq_singleton_iff.mp hKinds
    exact ⟨_, .falseWord ht⟩
  | group _ ih =>
    obtain ⟨l, ts, rfl, hLeft, hKinds⟩ := List.map_eq_cons_iff.mp hKinds
    obtain ⟨us, vs, rfl, hInner, hEnd⟩ := List.map_eq_append_iff.mp hKinds
    obtain ⟨r, rfl, hRight⟩ := List.map_eq_singleton_iff.mp hEnd
    simp only [integersInRange_cons, integersInRange_append] at hRange
    obtain ⟨first, links, hChain⟩ := ih hInner hRange.2.1
    exact ⟨_, .group hLeft hRight hChain⟩
  | conditional _ _ _ ihTest ihConsequence ihOther =>
    obtain ⟨i, ts, rfl, hIf, hKinds⟩ := List.map_eq_cons_iff.mp hKinds
    obtain ⟨l, ts, rfl, hLeft, hKinds⟩ := List.map_eq_cons_iff.mp hKinds
    obtain ⟨us, vs, rfl, hTest, hKinds⟩ := List.map_eq_append_iff.mp hKinds
    obtain ⟨r, vs, rfl, hRight, hKinds⟩ := List.map_eq_cons_iff.mp hKinds
    obtain ⟨vs, xs, rfl, hConsequence, hOther⟩ := List.map_eq_append_iff.mp hKinds
    simp only [integersInRange_cons, integersInRange_append] at hRange
    obtain ⟨-, -, hRangeTest, -, hRangeConsequence, hRangeOther⟩ := hRange
    obtain ⟨first, links, hChain⟩ := ihTest hTest hRangeTest
    obtain ⟨ss, hBlock⟩ := ihConsequence hConsequence hRangeConsequence
    obtain ⟨other, hAlternative⟩ := ihOther hOther hRangeOther
    exact ⟨_, .conditional hIf hLeft hRight hChain hBlock hAlternative⟩
  | block _ ih =>
    obtain ⟨l, ts, rfl, hLeft, hKinds⟩ := List.map_eq_cons_iff.mp hKinds
    obtain ⟨us, vs, rfl, hBody, hEnd⟩ := List.map_eq_append_iff.mp hKinds
    obtain ⟨r, rfl, hRight⟩ := List.map_eq_singleton_iff.mp hEnd
    simp only [integersInRange_cons, integersInRange_append] at hRange
    obtain ⟨ss, hStatements⟩ := ih hBody hRange.2.1
    exact ⟨ss, .block hLeft hRight hStatements⟩
  | noAlternative =>
    obtain rfl := List.map_eq_nil_iff.mp hKinds
    exact ⟨none, .noAlternative⟩
  | alternative _ ih =>
    obtain ⟨e, ts, rfl, hElse, hKinds⟩ := List.map_eq_cons_iff.mp hKinds
    obtain ⟨ss, hBlock⟩ := ih hKinds (integersInRange_cons.mp hRange).2
    exact ⟨some ss, .alternative hElse hBlock⟩

end MonkeyLang
