import MonkeyLang.Environment
import MonkeyLang.Value.Arithmetic

/-!
# Evaluation

Evaluating a tree yields a value and changes the environment. It stops early in two ways: a
`return` ends the whole evaluation with its value, and a fault ends it without one. Either
way the bindings made so far are kept.

There are no scopes: a `let` inside a block binds in the one environment there is. A name that
is not bound stands for null, and so do a `let` and an empty list of statements.

* `Expr.eval`, `Statement.eval`, `Statement.evalAll` follow the tree.
* `Fragment.run` is a whole evaluation, from an environment to an outcome and an environment.
* `Statement.evalAll_append` : lists of statements are evaluated one after the other.
-/

namespace MonkeyLang

/-- What ends an evaluation early. -/
inductive Stop
  | returned (value : Value)
  | fault (fault : Fault)
deriving DecidableEq, Repr, Inhabited

/-- An evaluation. The environment outlives a stop. -/
abbrev Eval (α : Type) : Type :=
  ExceptT Stop (StateM Environment) α

namespace Eval

/-- The value of a name, which is null if it is not bound. -/
def lookup (name : String) : Eval Value := do
  return ((← get).get? name).getD .null

/-- Binds a name to a value. -/
def assign (name : String) (value : Value) : Eval Unit :=
  modify (·.set name value)

/-- A result of an operator, or the fault that it is. -/
def ofResult : Except Fault Value → Eval Value
  | .ok value => pure value
  | .error fault => throw (.fault fault)

/-- What an evaluation comes to: a value, also one returned early, or a fault. -/
def outcome : Except Stop Value → Except Fault Value
  | .ok value => .ok value
  | .error (.returned value) => .ok value
  | .error (.fault fault) => .error fault

/-- Runs a whole evaluation. -/
def run (e : Eval Value) (env : Environment) : Except Fault Value × Environment :=
  let (result, env') := StateT.run (ExceptT.run e) env
  (outcome result, env')

end Eval

mutual

/-- Evaluates an expression. The operands of an operator are evaluated from left to right, both
of them always; of a conditional only the block that is chosen. -/
def Expr.eval : Expr → Eval Value
  | .identifier name => Eval.lookup name
  | .integer n => pure (.integer n)
  | .boolean b => pure (.boolean b)
  | .unary op right => do
    let r ← right.eval
    Eval.ofResult (op.apply r)
  | .binary op left right => do
    let l ← left.eval
    let r ← right.eval
    Eval.ofResult (op.apply l r)
  | .conditional test consequence none => do
    if (← test.eval).isTruthy then Statement.evalAll .null consequence else pure .null
  | .conditional test consequence (some alternative) => do
    if (← test.eval).isTruthy then
      Statement.evalAll .null consequence
    else
      Statement.evalAll .null alternative

/-- Evaluates a statement. -/
def Statement.eval : Statement → Eval Value
  | .binding name value => do
    let v ← value.eval
    Eval.assign name v
    return .null
  | .returning value => do
    let v ← value.eval
    throw (.returned v)
  | .expression _ value => value.eval

/-- Evaluates statements in order and yields the value of the last one; `last` is that of the
statement before. -/
def Statement.evalAll (last : Value) : List Statement → Eval Value
  | [] => pure last
  | s :: ss => do
    let v ← s.eval
    Statement.evalAll v ss

end

/-- Statements in a row run one after the other, and the last one gives the value. -/
theorem Statement.evalAll_append (last : Value) (ss ts : List Statement) :
    Statement.evalAll last (ss ++ ts) =
      Statement.evalAll last ss >>= fun v => Statement.evalAll v ts := by
  induction ss generalizing last with
  | nil => simp [Statement.evalAll]
  | cons s ss ih => simp [Statement.evalAll, ih]

/-- Evaluates any part of a program. -/
def Fragment.eval : Fragment → Eval Value
  | .program ss | .block ss => Statement.evalAll .null ss
  | .statement s => s.eval
  | .expression e => e.eval

/-- Runs any part of a program in an environment. -/
def Fragment.run (f : Fragment) (env : Environment) : Except Fault Value × Environment :=
  f.eval.run env

end MonkeyLang
