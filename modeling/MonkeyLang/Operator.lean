import MonkeyLang.Token

/-!
# Operators and how tightly they bind

* `UnaryOperator.ofKind?` and `BinaryOperator.ofKind?` say which tokens act as operators.
* `Precedence.ofKind` says how strongly a token that follows an expression pulls it in. An
  opening parenthesis pulls harder than every operator, although it continues no expression.
-/

namespace MonkeyLang

/-- The operators that stand before their operand. -/
inductive UnaryOperator
  | not | negate
deriving DecidableEq, Repr, Inhabited

/-- The operators that stand between their operands. -/
inductive BinaryOperator
  | add | subtract | multiply | divide | less | greater | equal | notEqual
deriving DecidableEq, Repr, Inhabited

/-- The binding strengths, weakest first. -/
inductive Precedence
  | lowest | equality | comparison | sum | product | unary | call
deriving DecidableEq, Repr, Inhabited

open Token

namespace UnaryOperator

/-- The text of an operator. -/
def text : UnaryOperator → String
  | not => "!"
  | negate => "-"

/-- The operator that a token in front of an operand stands for. -/
def ofKind? : Kind → Option UnaryOperator
  | .bang => some not
  | .minus => some negate
  | _ => none

/-- The token kind of an operator. -/
def kind : UnaryOperator → Kind
  | not => .bang
  | negate => .minus

theorem ofKind?_eq_some_iff {k : Kind} {op : UnaryOperator} :
    ofKind? k = some op ↔ k = op.kind := by
  cases k <;> cases op <;> decide

theorem spelling?_kind (op : UnaryOperator) : op.kind.spelling? = some op.text := by
  cases op <;> rfl

theorem kind_ne_endOfInput (op : UnaryOperator) : op.kind ≠ .endOfInput := by
  cases op <;> decide

end UnaryOperator

namespace BinaryOperator

/-- The text of an operator. -/
def text : BinaryOperator → String
  | add => "+"
  | subtract => "-"
  | multiply => "*"
  | divide => "/"
  | less => "<"
  | greater => ">"
  | equal => "=="
  | notEqual => "!="

/-- The operator that a token between two operands stands for. -/
def ofKind? : Kind → Option BinaryOperator
  | .plus => some add
  | .minus => some subtract
  | .asterisk => some multiply
  | .slash => some divide
  | .less => some less
  | .greater => some greater
  | .equal => some equal
  | .notEqual => some notEqual
  | _ => none

/-- The token kind of an operator. -/
def kind : BinaryOperator → Kind
  | add => .plus
  | subtract => .minus
  | multiply => .asterisk
  | divide => .slash
  | less => .less
  | greater => .greater
  | equal => .equal
  | notEqual => .notEqual

theorem ofKind?_eq_some_iff {k : Kind} {op : BinaryOperator} :
    ofKind? k = some op ↔ k = op.kind := by
  cases k <;> cases op <;> decide

theorem spelling?_kind (op : BinaryOperator) : op.kind.spelling? = some op.text := by
  cases op <;> rfl

theorem kind_ne_endOfInput (op : BinaryOperator) : op.kind ≠ .endOfInput := by
  cases op <;> decide

end BinaryOperator

namespace Precedence

/-- The place of a strength in the order, from 0 for the weakest. -/
def level : Precedence → Nat
  | lowest => 0
  | equality => 1
  | comparison => 2
  | sum => 3
  | product => 4
  | unary => 5
  | call => 6

instance : LT Precedence := ⟨fun a b => a.level < b.level⟩
instance : LE Precedence := ⟨fun a b => a.level ≤ b.level⟩

instance (a b : Precedence) : Decidable (a < b) := inferInstanceAs (Decidable (a.level < b.level))
instance (a b : Precedence) : Decidable (a ≤ b) := inferInstanceAs (Decidable (a.level ≤ b.level))

theorem lt_iff {a b : Precedence} : a < b ↔ a.level < b.level := Iff.rfl

theorem le_iff {a b : Precedence} : a ≤ b ↔ a.level ≤ b.level := Iff.rfl

theorem not_lt {a b : Precedence} : ¬ a < b ↔ b ≤ a := Nat.not_lt

theorem le_of_lt {a b : Precedence} (h : a < b) : a ≤ b := Nat.le_of_lt h

theorem lt_of_lt_of_le {a b c : Precedence} (h : a < b) (h' : b ≤ c) : a < c :=
  Nat.lt_of_lt_of_le h h'

/-- How strongly a token binds the expression before it. -/
def ofKind : Kind → Precedence
  | .equal | .notEqual => equality
  | .less | .greater => comparison
  | .plus | .minus => sum
  | .asterisk | .slash => product
  | .leftParen => call
  | _ => lowest

/-- Which of two strengths is the greater. -/
def compare (a b : Precedence) : Ordering :=
  Ord.compare a.level b.level

end Precedence

/-- How strongly an operator binds its operands. -/
def BinaryOperator.precedence (op : BinaryOperator) : Precedence :=
  .ofKind op.kind

/-- Every operator continues an expression that is read without a limit. -/
theorem BinaryOperator.lowest_lt_precedence (op : BinaryOperator) :
    Precedence.lowest < op.precedence := by
  cases op <;> decide

/-- No binary operator continues the operand of a unary one. -/
theorem BinaryOperator.precedence_le_unary (op : BinaryOperator) :
    op.precedence ≤ Precedence.unary := by
  cases op <;> decide

end MonkeyLang
