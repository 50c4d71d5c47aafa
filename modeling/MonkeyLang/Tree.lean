import MonkeyLang.Integer
import MonkeyLang.Operator

/-!
# Syntax trees

A program is a list of statements, and so is a block. An expression statement remembers the
text of the token it started with; nothing else of the source is kept, so parentheses and
optional semicolons leave no trace.

* `Fragment` is any part of a program that can be printed or evaluated by itself.
* `Expr.same_iff` : equality of trees is decidable.
-/

namespace MonkeyLang

mutual

/-- Expressions. The alternative of a conditional may be missing, which differs from an empty
one. -/
inductive Expr
  | identifier (name : String)
  | integer (value : Integer)
  | boolean (value : Bool)
  | unary (operator : UnaryOperator) (right : Expr)
  | binary (operator : BinaryOperator) (left right : Expr)
  | conditional (test : Expr) (consequence : List Statement)
      (alternative : Option (List Statement))

/-- Statements. The literal of an expression statement is the text of its first token. -/
inductive Statement
  | binding (name : String) (value : Expr)
  | returning (value : Expr)
  | expression (literal : String) (value : Expr)

end

deriving instance Repr for Expr, Statement

instance : Inhabited Expr := ⟨.boolean false⟩
instance : Inhabited Statement := ⟨.returning default⟩

/-- A part of a program that stands by itself. -/
inductive Fragment
  | program (statements : List Statement)
  | statement (statement : Statement)
  | block (statements : List Statement)
  | expression (expression : Expr)
deriving Repr, Inhabited

/-- The text of the token a statement starts with. -/
def Statement.firstLiteral : Statement → String
  | .binding _ _ => "let"
  | .returning _ => "return"
  | .expression literal _ => literal

/-! ## Equality -/

mutual

/-- Whether two expressions are the same tree. -/
def Expr.same : Expr → Expr → Bool
  | .identifier a, .identifier b => a = b
  | .integer a, .integer b => a = b
  | .boolean a, .boolean b => a = b
  | .unary op e, .unary op' e' => op = op' && Expr.same e e'
  | .binary op l r, .binary op' l' r' => op = op' && (Expr.same l l' && Expr.same r r')
  | .conditional t c none, .conditional t' c' none => Expr.same t t' && Statement.sameAll c c'
  | .conditional t c (some a), .conditional t' c' (some a') =>
    Expr.same t t' && (Statement.sameAll c c' && Statement.sameAll a a')
  | _, _ => false

/-- Whether two statements are the same tree. -/
def Statement.same : Statement → Statement → Bool
  | .binding n e, .binding n' e' => n = n' && Expr.same e e'
  | .returning e, .returning e' => Expr.same e e'
  | .expression t e, .expression t' e' => t = t' && Expr.same e e'
  | _, _ => false

/-- Whether two lists of statements are the same trees in the same order. -/
def Statement.sameAll : List Statement → List Statement → Bool
  | [], [] => true
  | s :: ss, s' :: ss' => Statement.same s s' && Statement.sameAll ss ss'
  | _, _ => false

end

mutual

theorem Expr.same_iff (a b : Expr) : Expr.same a b = true ↔ a = b := by
  cases a with
  | identifier | integer | boolean => cases b <;> simp [Expr.same]
  | unary op e => cases b <;> simp [Expr.same, Expr.same_iff e]
  | binary op l r => cases b <;> simp [Expr.same, Expr.same_iff l, Expr.same_iff r]
  | conditional t c a =>
    cases a with
    | none =>
      cases b with
      | conditional t' c' a' =>
        cases a' <;> simp [Expr.same, Expr.same_iff t, Statement.sameAll_iff c]
      | _ => simp [Expr.same]
    | some a =>
      cases b with
      | conditional t' c' a' =>
        cases a' <;>
          simp [Expr.same, Expr.same_iff t, Statement.sameAll_iff c, Statement.sameAll_iff a]
      | _ => simp [Expr.same]

theorem Statement.same_iff (a b : Statement) : Statement.same a b = true ↔ a = b := by
  cases a with
  | binding n e => cases b <;> simp [Statement.same, Expr.same_iff e]
  | returning e => cases b <;> simp [Statement.same, Expr.same_iff e]
  | expression t e => cases b <;> simp [Statement.same, Expr.same_iff e]

theorem Statement.sameAll_iff (as bs : List Statement) :
    Statement.sameAll as bs = true ↔ as = bs := by
  cases as with
  | nil => cases bs <;> simp [Statement.sameAll]
  | cons a as =>
    cases bs <;> simp [Statement.sameAll, Statement.same_iff a, Statement.sameAll_iff as]

end

instance : DecidableEq Expr := fun a b => decidable_of_iff _ (Expr.same_iff a b)
instance : DecidableEq Statement := fun a b => decidable_of_iff _ (Statement.same_iff a b)

end MonkeyLang
