import MonkeyLang.Tree.Evaluation

/-!
# Results of evaluations

What an evaluation comes to in an environment: a value or the reason for which it stopped, and
the environment that it leaves. There is one rule for each way to build an evaluation, so nothing
has to be said of how evaluations are represented.

* `Eval.result_bind_ok`, `Eval.result_bind_error` : one evaluation after another.
* `Eval.run_eq` : a whole evaluation.
-/

namespace MonkeyLang

namespace Eval

variable {α β : Type} {e : Eval α} {env env' : Environment}

/-- What an evaluation comes to, and the environment that it leaves. -/
def result (e : Eval α) (env : Environment) : Except Stop α × Environment :=
  StateT.run (ExceptT.run e) env

@[simp] theorem result_pure (a : α) (env : Environment) :
    (pure a : Eval α).result env = (.ok a, env) := rfl

@[simp] theorem result_throw (stop : Stop) (env : Environment) :
    (throw stop : Eval α).result env = (.error stop, env) := rfl

@[simp] theorem result_lookup (name : String) (env : Environment) :
    (lookup name).result env = (.ok ((env.get? name).getD .null), env) := rfl

@[simp] theorem result_assign (name : String) (value : Value) (env : Environment) :
    (assign name value).result env = (.ok (), env.set name value) := rfl

/-- What follows a value goes on from the environment it was found in. -/
theorem result_bind_ok {a : α} (h : e.result env = (.ok a, env')) (f : α → Eval β) :
    (e >>= f).result env = (f a).result env' := by
  unfold result at h ⊢
  rw [ExceptT.run_bind, StateT.run_bind, h]
  rfl

/-- Nothing follows where an evaluation stops. -/
theorem result_bind_error {stop : Stop} (h : e.result env = (.error stop, env'))
    (f : α → Eval β) : (e >>= f).result env = (.error stop, env') := by
  unfold result at h ⊢
  rw [ExceptT.run_bind, StateT.run_bind, h]
  rfl

theorem run_eq (e : Eval Value) (env : Environment) :
    e.run env = (outcome (e.result env).1, (e.result env).2) := rfl

end Eval

end MonkeyLang
