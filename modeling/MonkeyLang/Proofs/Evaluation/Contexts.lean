import MonkeyLang.Proofs.Evaluation.Result

/-!
# Stopping early

A `return` and a fault end the whole evaluation, wherever in a program they occur. So an
expression that stops early decides what a program does in which it is the first to be evaluated:
the program comes to what the expression comes to, and it leaves the environment that the
expression leaves. No operator around it is applied, no `let` around it binds, and nothing behind
it is evaluated.

The programs around an expression are given by contexts, trees with a hole at a place that is
evaluated before anything else in them. Literals may stand before it: evaluating them can neither
stop nor bind.

* `Expr.Context`, `Statement.Context`, `Statement.ListContext`, `Fragment.Context` : the
  contexts, and `plug` puts an expression into the hole.
* `Fragment.run_plug` : an expression that stops early in a context of any depth.
-/

namespace MonkeyLang

/-! ## Literals -/

/-- Expressions that stand for a value by themselves. -/
inductive Literal
  | integer (n : Integer)
  | boolean (b : Bool)

namespace Literal

/-- A literal as an expression. -/
def toExpr : Literal → Expr
  | integer n => .integer n
  | boolean b => .boolean b

/-- The value of a literal. -/
def value : Literal → Value
  | integer n => .integer n
  | boolean b => .boolean b

theorem result_eval (l : Literal) (env : Environment) :
    l.toExpr.eval.result env = (.ok l.value, env) := by
  cases l <;> rfl

end Literal

/-! ## Contexts -/

mutual

/-- Expressions with a hole that is evaluated first. Where a conditional has the hole in a block,
its test is a literal that chooses the block. -/
inductive Expr.Context
  | hole
  | unary (operator : UnaryOperator) (right : Expr.Context)
  | left (operator : BinaryOperator) (left : Expr.Context) (right : Expr)
  | right (operator : BinaryOperator) (left : Literal) (right : Expr.Context)
  | test (test : Expr.Context) (consequence : List Statement)
      (alternative : Option (List Statement))
  | consequence (test : Literal) (hTest : test.value.isTruthy = true)
      (consequence : Statement.ListContext) (alternative : Option (List Statement))
  | alternative (test : Literal) (hTest : test.value.isTruthy = false)
      (consequence : List Statement) (alternative : Statement.ListContext)

/-- Statements with a hole that is evaluated first. -/
inductive Statement.Context
  | binding (name : String) (value : Expr.Context)
  | returning (value : Expr.Context)
  | expression (literal : String) (value : Expr.Context)

/-- Lists of statements with a hole in the first one. -/
inductive Statement.ListContext
  | head (first : Statement.Context) (rest : List Statement)

end

/-- Parts of a program with a hole that is evaluated first. -/
inductive Fragment.Context
  | program (statements : Statement.ListContext)
  | statement (statement : Statement.Context)
  | block (statements : Statement.ListContext)
  | expression (expression : Expr.Context)

mutual

/-- The expression with another one in the hole. -/
def Expr.Context.plug (e : Expr) : Expr.Context → Expr
  | .hole => e
  | .unary op right => .unary op (right.plug e)
  | .left op left right => .binary op (left.plug e) right
  | .right op left right => .binary op left.toExpr (right.plug e)
  | .test test consequence alternative => .conditional (test.plug e) consequence alternative
  | .consequence test _ consequence alternative =>
    .conditional test.toExpr (consequence.plug e) alternative
  | .alternative test _ consequence alternative =>
    .conditional test.toExpr consequence (some (alternative.plug e))

/-- The statement with an expression in the hole. -/
def Statement.Context.plug (e : Expr) : Statement.Context → Statement
  | .binding name value => .binding name (value.plug e)
  | .returning value => .returning (value.plug e)
  | .expression literal value => .expression literal (value.plug e)

/-- The statements with an expression in the hole. -/
def Statement.ListContext.plug (e : Expr) : Statement.ListContext → List Statement
  | .head first rest => first.plug e :: rest

end

/-- The part of a program with an expression in the hole. -/
def Fragment.Context.plug (e : Expr) : Fragment.Context → Fragment
  | .program ss => .program (ss.plug e)
  | .statement s => .statement (s.plug e)
  | .block ss => .block (ss.plug e)
  | .expression c => .expression (c.plug e)

/-! ## Evaluation in a context -/

open Eval

section conditional

variable {test : Expr} {consequence : List Statement} {alternative : Option (List Statement)}
variable {env env' : Environment}

/-- A conditional stops where its test does. -/
theorem Expr.result_conditional_error {stop : Stop}
    (h : test.eval.result env = (.error stop, env')) :
    (Expr.conditional test consequence alternative).eval.result env = (.error stop, env') := by
  cases alternative with
  | none => exact result_bind_error h _
  | some alternative => exact result_bind_error h _

/-- A conditional whose test counts as true goes on with its first block. -/
theorem Expr.result_conditional_true {v : Value} (h : test.eval.result env = (.ok v, env'))
    (hTruthy : v.isTruthy = true) :
    (Expr.conditional test consequence alternative).eval.result env =
      (Statement.evalAll .null consequence).result env' := by
  cases alternative with
  | none => rw [Expr.eval, result_bind_ok h, if_pos hTruthy]
  | some alternative => rw [Expr.eval, result_bind_ok h, if_pos hTruthy]

/-- A conditional whose test does not count as true goes on with its second block. -/
theorem Expr.result_conditional_false {v : Value} {alternative : List Statement}
    (h : test.eval.result env = (.ok v, env')) (hTruthy : v.isTruthy = false) :
    (Expr.conditional test consequence (some alternative)).eval.result env =
      (Statement.evalAll .null alternative).result env' := by
  rw [Expr.eval, result_bind_ok h, if_neg (Bool.eq_false_iff.mp hTruthy)]

end conditional

section stop

variable {e : Expr} {env env' : Environment} {stop : Stop}

mutual

/-- What stops an expression in the hole stops the expression around it. -/
theorem Expr.Context.result_plug (h : e.eval.result env = (.error stop, env')) :
    (c : Expr.Context) → (c.plug e).eval.result env = (.error stop, env')
  | .hole => h
  | .unary _ right => result_bind_error (right.result_plug h) _
  | .left _ left _ => result_bind_error (left.result_plug h) _
  | .right _ left right =>
    (result_bind_ok (left.result_eval env) _).trans (result_bind_error (right.result_plug h) _)
  | .test test _ _ => Expr.result_conditional_error (test.result_plug h)
  | .consequence test hTest consequence _ =>
    (Expr.result_conditional_true (test.result_eval env) hTest).trans
      (consequence.result_plug h .null)
  | .alternative test hTest _ alternative =>
    (Expr.result_conditional_false (test.result_eval env) hTest).trans
      (alternative.result_plug h .null)

/-- What stops an expression in the hole stops the statement around it. -/
theorem Statement.Context.result_plug (h : e.eval.result env = (.error stop, env')) :
    (c : Statement.Context) → (c.plug e).eval.result env = (.error stop, env')
  | .binding _ value => result_bind_error (value.result_plug h) _
  | .returning value => result_bind_error (value.result_plug h) _
  | .expression _ value => value.result_plug h

/-- What stops an expression in the hole stops the list around it, and no later statement runs. -/
theorem Statement.ListContext.result_plug (h : e.eval.result env = (.error stop, env')) :
    (c : Statement.ListContext) → ∀ last,
      (Statement.evalAll last (c.plug e)).result env = (.error stop, env')
  | .head first _, _ => result_bind_error (first.result_plug h) _

end

theorem Fragment.Context.result_plug (h : e.eval.result env = (.error stop, env'))
    (c : Fragment.Context) : (c.plug e).eval.result env = (.error stop, env') := by
  cases c with
  | program ss | block ss => exact ss.result_plug h .null
  | statement s => exact s.result_plug h
  | expression c => exact c.result_plug h

/-- An expression that stops early stops every part of a program in which it is evaluated first:
with the value that it returns or with its fault, and in the environment that it leaves. -/
theorem Fragment.run_plug (h : e.eval.result env = (.error stop, env')) (c : Fragment.Context) :
    (c.plug e).run env =
      match stop with
      | .returned v => (.ok v, env')
      | .fault f => (.error f, env') := by
  rw [Fragment.run, run_eq, c.result_plug h]
  cases stop with
  | returned v => rfl
  | fault f => rfl

end stop

/-- A `return` in the value of a `let`, below an operator and in a block: neither the `let` nor the
operators take place, and what the block has bound stays. -/
theorem Fragment.run_plug_return :
    let e : Expr := .conditional (.boolean true)
      [.binding "a" (.integer 1), .returning (.identifier "a"), .binding "b" (.integer 2)] none
    let c : Fragment.Context := .program (.head (.binding "x"
      (.alternative (.boolean false) rfl [] (.head (.expression "5"
        (.right .divide (.integer 5) (.unary .negate (.left .add .hole (.identifier "y")))))
        [.binding "c" (.integer 3)])))
      [.expression "99" (.integer 99)])
    let left := Environment.empty.set "a" (.integer 1)
    e.eval.result .empty = (.error (.returned (.integer 1)), left) ∧
      (c.plug e).run .empty = (.ok (.integer 1), left) := by
  intro e c left
  have hStop : e.eval.result .empty = (.error (.returned (.integer 1)), left) := rfl
  exact ⟨hStop, run_plug hStop c⟩

end MonkeyLang
