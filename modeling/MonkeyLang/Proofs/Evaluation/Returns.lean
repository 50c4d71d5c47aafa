import MonkeyLang.Proofs.Evaluation.Result

/-!
# Programs without `return`

A `return` anywhere in a program may end its evaluation early. Where there is none, at whatever
depth, an evaluation ends with the value of the last statement or with a fault, and a program can
be evaluated in two parts.

* `Eval.NeverReturns` : an evaluation that never stops with a `return`, with one rule for each
  way to build an evaluation.
* `Statement.neverReturns_evalAll` : statements without `return` are such an evaluation.
* `Statement.exists_result_ok` : a statement that ends with no fault comes to a value.
* `Fragment.run_program_append` : what a program does is what its first part does and then what
  the second one does, unless the first one ends with a fault.
-/

namespace MonkeyLang

mutual

/-- Whether a `return` stands anywhere in an expression. -/
def Expr.hasReturn : Expr → Bool
  | .identifier _ | .integer _ | .boolean _ => false
  | .unary _ right => right.hasReturn
  | .binary _ left right => left.hasReturn || right.hasReturn
  | .conditional test consequence none => test.hasReturn || Statement.anyReturn consequence
  | .conditional test consequence (some alternative) =>
    test.hasReturn || (Statement.anyReturn consequence || Statement.anyReturn alternative)

/-- Whether a statement is a `return`, or one stands anywhere in it. -/
def Statement.hasReturn : Statement → Bool
  | .binding _ value => value.hasReturn
  | .returning _ => true
  | .expression _ value => value.hasReturn

/-- Whether a `return` stands anywhere in a list of statements. -/
def Statement.anyReturn : List Statement → Bool
  | [] => false
  | s :: ss => s.hasReturn || Statement.anyReturn ss

end

/-! ## Evaluations that never return -/

namespace Eval

variable {α β : Type} {e : Eval α} {f : α → Eval β}

/-- In no environment the evaluation stops with a `return`. -/
def NeverReturns (e : Eval α) : Prop :=
  ∀ env v, (e.result env).1 ≠ .error (.returned v)

namespace NeverReturns

theorem pure (a : α) : NeverReturns (Pure.pure a : Eval α) :=
  fun _ _ h => nomatch h

theorem lookup (name : String) : (Eval.lookup name).NeverReturns :=
  fun _ _ h => nomatch h

theorem assign (name : String) (value : Value) : (Eval.assign name value).NeverReturns :=
  fun _ _ h => nomatch h

theorem ofResult (result : Except Fault Value) : (Eval.ofResult result).NeverReturns := by
  intro env v h
  cases result with
  | ok value => cases h
  | error fault => cases h

theorem bind (he : e.NeverReturns) (hf : ∀ a, (f a).NeverReturns) :
    (e >>= f).NeverReturns := by
  intro env v
  rcases hResult : e.result env with ⟨result, env'⟩
  cases result with
  | ok a =>
    rw [result_bind_ok hResult]
    exact hf a env' v
  | error stop =>
    have hStop := he env v
    rw [hResult] at hStop
    rw [result_bind_error hResult]
    exact fun h => hStop (by cases h; rfl)

theorem ite {e' : Eval α} {p : Prop} [Decidable p] (he : e.NeverReturns) (he' : e'.NeverReturns) :
    (if p then e else e').NeverReturns := by
  split
  · exact he
  · exact he'

end NeverReturns

end Eval

/-! ## Trees without `return` -/

open Eval

mutual

/-- Without a `return` in it, an expression comes to a value or to a fault. -/
theorem Expr.neverReturns_eval : (e : Expr) → e.hasReturn = false → e.eval.NeverReturns
  | .identifier name, _ => .lookup name
  | .integer n, _ => .pure _
  | .boolean b, _ => .pure _
  | .unary op right, h => .bind (right.neverReturns_eval h) fun _ => .ofResult _
  | .binary op left right, h => by
    obtain ⟨hLeft, hRight⟩ := Bool.or_eq_false_iff.mp h
    exact .bind (left.neverReturns_eval hLeft) fun _ =>
      .bind (right.neverReturns_eval hRight) fun _ => .ofResult _
  | .conditional test consequence none, h => by
    obtain ⟨hTest, hConsequence⟩ := Bool.or_eq_false_iff.mp h
    exact .bind (test.neverReturns_eval hTest) fun _ =>
      .ite (Statement.neverReturns_evalAll consequence hConsequence .null) (.pure _)
  | .conditional test consequence (some alternative), h => by
    obtain ⟨hTest, hBranches⟩ := Bool.or_eq_false_iff.mp h
    obtain ⟨hConsequence, hAlternative⟩ := Bool.or_eq_false_iff.mp hBranches
    exact .bind (test.neverReturns_eval hTest) fun _ =>
      .ite (Statement.neverReturns_evalAll consequence hConsequence .null)
        (Statement.neverReturns_evalAll alternative hAlternative .null)

theorem Statement.neverReturns_eval : (s : Statement) → s.hasReturn = false → s.eval.NeverReturns
  | .binding name value, h =>
    .bind (value.neverReturns_eval h) fun _ => .bind (.assign name _) fun _ => .pure _
  | .expression _ value, h => value.neverReturns_eval h

/-- Without a `return` in them, statements come to a value or to a fault. -/
theorem Statement.neverReturns_evalAll : (ss : List Statement) → Statement.anyReturn ss = false →
    ∀ last, (Statement.evalAll last ss).NeverReturns
  | [], _, last => .pure last
  | s :: ss, h, last => by
    obtain ⟨hHead, hTail⟩ := Bool.or_eq_false_iff.mp h
    exact .bind (s.neverReturns_eval hHead) fun v =>
      Statement.neverReturns_evalAll ss hTail v

end

/-- A statement without `return` that does not end with a fault comes to a value. -/
theorem Statement.exists_result_ok {s : Statement} {env : Environment}
    (hReturn : s.hasReturn = false)
    (hFault : ∀ f, ((Fragment.statement s).run env).1 ≠ .error f) :
    ∃ v env₁, s.eval.result env = (.ok v, env₁) := by
  have hNever := s.neverReturns_eval hReturn env
  rw [Fragment.run, Fragment.eval, run_eq] at hFault
  rcases hResult : s.eval.result env with ⟨result, env₁⟩
  rw [hResult] at hNever hFault
  cases result with
  | ok v => exact ⟨v, env₁, rfl⟩
  | error stop =>
    cases stop with
    | returned v => exact absurd rfl (hNever v)
    | fault f => exact absurd rfl (hFault f)

/-! ## Two parts of a program -/

/-- The value of the statement before is forgotten where another one follows. -/
theorem Statement.evalAll_of_ne_nil {ss : List Statement} (h : ss ≠ []) (last last' : Value) :
    Statement.evalAll last ss = Statement.evalAll last' ss := by
  cases ss with
  | nil => exact absurd rfl h
  | cons s ss => rfl

/-- A program whose first part holds no `return` is evaluated in two parts. If the first one ends
with a fault, so does the program. -/
theorem Fragment.run_program_append {ss ts : List Statement}
    (hReturn : Statement.anyReturn ss = false) (hMore : ts ≠ []) (env : Environment) :
    (Fragment.program (ss ++ ts)).run env =
      match (Fragment.program ss).run env with
      | (.ok _, env') => (Fragment.program ts).run env'
      | (.error fault, env') => (.error fault, env') := by
  have hNever := Statement.neverReturns_evalAll ss hReturn .null env
  simp only [Fragment.run, Fragment.eval, run_eq, Statement.evalAll_append]
  rcases hResult : (Statement.evalAll .null ss).result env with ⟨result, env'⟩
  rw [hResult] at hNever
  cases result with
  | ok v =>
    rw [result_bind_ok hResult, Statement.evalAll_of_ne_nil hMore v .null]
    rfl
  | error stop =>
    rw [result_bind_error hResult]
    cases stop with
    | returned v => exact absurd rfl (hNever v)
    | fault fault => rfl

end MonkeyLang
