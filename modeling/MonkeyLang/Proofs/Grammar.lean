import MonkeyLang.Integer
import MonkeyLang.Operator

/-!
# The grammar of the language

The grammar speaks of token kinds alone:

    statements  = { statement }
    statement   = LET IDENT = expression [;]  |  RETURN expression [;]  |  expression [;]
    expression  = operand { binary operator operand }
    operand     = { unary operator } primary
    primary     = IDENT | INT | TRUE | FALSE | ( expression )
                | IF ( expression ) block alternative
    block       = LEFT BRACE statements RIGHT BRACE
    alternative = [ ELSE block ]

It is ambiguous: a minus after an expression may continue it or start another statement. The
one thing it leaves out about the text of a token is `IntegersInRange`.
-/

namespace MonkeyLang

/-- The parts of a program the grammar has rules for. A whole program is `statements`. -/
inductive Nonterminal
  | statements | statement | expression | operand | block | alternative

/-- The ways to end a statement. -/
def terminators : List (List Token.Kind) :=
  [[], [.semicolon]]

/-- The kinds of token a part of a program can be made of, in order. -/
inductive Derives : Nonterminal → List Token.Kind → Prop
  | noStatement : Derives .statements []
  | moreStatements {s rest} (head : Derives .statement s) (tail : Derives .statements rest) :
      Derives .statements (s ++ rest)
  | binding {e terminator} (value : Derives .expression e) (h : terminator ∈ terminators) :
      Derives .statement (.letWord :: .identifier :: .assign :: (e ++ terminator))
  | returning {e terminator} (value : Derives .expression e) (h : terminator ∈ terminators) :
      Derives .statement (.returnWord :: (e ++ terminator))
  | expression {e terminator} (value : Derives .expression e) (h : terminator ∈ terminators) :
      Derives .statement (e ++ terminator)
  | lastOperand {u} (operand : Derives .operand u) : Derives .expression u
  | operation {u e} (operand : Derives .operand u) (op : BinaryOperator)
      (rest : Derives .expression e) : Derives .expression (u ++ op.kind :: e)
  | unary {u} (op : UnaryOperator) (operand : Derives .operand u) :
      Derives .operand (op.kind :: u)
  | identifier : Derives .operand [.identifier]
  | integer : Derives .operand [.integer]
  | trueWord : Derives .operand [.trueWord]
  | falseWord : Derives .operand [.falseWord]
  | group {e} (inner : Derives .expression e) :
      Derives .operand (.leftParen :: (e ++ [.rightParen]))
  | conditional {e b a} (test : Derives .expression e) (consequence : Derives .block b)
      (other : Derives .alternative a) :
      Derives .operand (.ifWord :: .leftParen :: (e ++ .rightParen :: (b ++ a)))
  | block {ss} (body : Derives .statements ss) :
      Derives .block (.leftBrace :: (ss ++ [.rightBrace]))
  | noAlternative : Derives .alternative []
  | alternative {b} (body : Derives .block b) : Derives .alternative (.elseWord :: b)

/-- The text of every integer token is that of an integer in range. -/
def IntegersInRange (ts : List Token) : Prop :=
  ∀ t ∈ ts, t.kind = .integer → (Integer.ofText? t.literal).isSome

theorem integersInRange_nil : IntegersInRange [] := nofun

theorem integersInRange_cons {t : Token} {ts : List Token} :
    IntegersInRange (t :: ts) ↔
      (t.kind = .integer → (Integer.ofText? t.literal).isSome) ∧ IntegersInRange ts :=
  List.forall_mem_cons

theorem integersInRange_append {ts us : List Token} :
    IntegersInRange (ts ++ us) ↔ IntegersInRange ts ∧ IntegersInRange us :=
  List.forall_mem_append

end MonkeyLang
