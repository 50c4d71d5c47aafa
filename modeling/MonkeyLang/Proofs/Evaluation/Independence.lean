import MonkeyLang.Proofs.Evaluation.InStep
import MonkeyLang.Proofs.Evaluation.Returns

/-!
# Statements that can change places

Two statements meet only in the names that one of them binds and the other one reads or binds. If
there is no such name and both come to a value, it makes no difference which of them is evaluated
first: each one comes to the value it comes to by itself, and what both have bound afterwards is
the same.

* `Statement.Apart` : statements that do not meet.
* `Statement.Apart.exists_result` : a statement behind one from which it is apart.
* `Statement.Apart.evalAll_swap`, `Fragment.run_program_swap` : neighbours that change places.
-/

namespace MonkeyLang

open Eval Environment

/-! ## Statements that do not meet -/

/-- No name that a `let` binds anywhere in one of the statements is read or bound anywhere in the
other. -/
def Statement.Apart (s t : Statement) : Prop :=
  (∀ n ∈ s.binds, n ∉ t.reads ∧ n ∉ t.binds) ∧ ∀ n ∈ t.binds, n ∉ s.reads ∧ n ∉ s.binds

instance (s t : Statement) : Decidable (s.Apart t) :=
  inferInstanceAs (Decidable (_ ∧ _))

namespace Statement.Apart

variable {s t : Statement} {env env₁ env₂ : Environment} {v w : Value}

theorem symm (h : s.Apart t) : t.Apart s :=
  ⟨h.2, h.1⟩

/-- Behind a statement from which it is apart a statement comes to what it comes to by itself. A
name that it does not bind is then as the first statement has left it, and a name that the first one
does not bind is as the second one leaves it by itself. -/
theorem exists_result {result : Except Stop Value} (h : s.Apart t)
    (hFirst : s.eval.result env = (.ok v, env₁)) (hAlone : t.eval.result env = (result, env₂)) :
    ∃ env', t.eval.result env₁ = (result, env') ∧
      (∀ n, n ∉ t.binds → env'.get? n = env₁.get? n) ∧
      ∀ n, n ∉ s.binds → env'.get? n = env₂.get? n := by
  have hReads : ∀ n ∈ t.reads, env₁.get? n = env.get? n := fun n hRead =>
    get?_result_of_notMem_binds (fun hBind => (h.1 n hBind).1 hRead) hFirst
  have hBegin : InStep (· ∈ t.reads) env env₁ env env₁ := .begin hReads
  obtain ⟨env', hBehind, hEnd⟩ :=
    (InStep.parallel_statement fun _ hRead => hRead).exists_result hBegin hAlone
  refine ⟨env', hBehind, fun n hBind => get?_result_of_notMem_binds hBind hBehind, ?_⟩
  intro n hBind
  rcases hEnd.kept_or_bound n with ⟨hKept, hKept'⟩ | ⟨value, hBound, hBound'⟩
  · calc env'.get? n = env₁.get? n := hKept'
      _ = env.get? n := get?_result_of_notMem_binds hBind hFirst
      _ = env₂.get? n := hKept.symm
  · exact hBound'.trans hBound.symm

/-- Two statements that come to a value do so in either order, and they leave the same
environment. -/
theorem exists_result_both (h : s.Apart t) (hFirst : s.eval.result env = (.ok v, env₁))
    (hSecond : t.eval.result env = (.ok w, env₂)) :
    ∃ env', t.eval.result env₁ = (.ok w, env') ∧ s.eval.result env₂ = (.ok v, env') := by
  obtain ⟨env', hResult, hOutside, hInside⟩ := h.exists_result hFirst hSecond
  obtain ⟨env'', hResult', hOutside', hInside'⟩ := h.symm.exists_result hSecond hFirst
  have hSame : env'' = env' := by
    refine ext_get? fun n => ?_
    by_cases hBind : n ∈ s.binds
    · have hOther : n ∉ t.binds := (h.1 n hBind).2
      exact (hInside' n hOther).trans (hOutside n hOther).symm
    · exact (hOutside' n hBind).trans (hInside n hBind).symm
  exact ⟨env', hResult, hSame ▸ hResult'⟩

/-- Two statements that come to a value can change places before another statement. -/
theorem evalAll_swap {rest : List Statement} (h : s.Apart t)
    (hFirst : s.eval.result env = (.ok v, env₁)) (hSecond : t.eval.result env = (.ok w, env₂))
    (hMore : rest ≠ []) (last : Value) :
    (Statement.evalAll last (s :: t :: rest)).result env =
      (Statement.evalAll last (t :: s :: rest)).result env := by
  obtain ⟨env', hBehind, hBehind'⟩ := h.exists_result_both hFirst hSecond
  have hForward : (Statement.evalAll last (s :: t :: rest)).result env =
      (Statement.evalAll w rest).result env' :=
    (result_bind_ok hFirst _).trans (result_bind_ok hBehind _)
  have hBackward : (Statement.evalAll last (t :: s :: rest)).result env =
      (Statement.evalAll v rest).result env' :=
    (result_bind_ok hSecond _).trans (result_bind_ok hBehind' _)
  rw [hForward, hBackward, Statement.evalAll_of_ne_nil hMore w v]

end Statement.Apart

/-! ## Neighbours in a program -/

/-- In a program two neighbours that are apart can change places before another statement, if
neither of them holds a `return` or ends with a fault by itself in the environment in which they are
reached. -/
theorem Fragment.run_program_swap {front rest : List Statement} {s t : Statement}
    {start env : Environment} {last : Value}
    (hReached : (Statement.evalAll .null front).result start = (.ok last, env))
    (hReturn : s.hasReturn = false) (hReturn' : t.hasReturn = false)
    (hFault : ∀ f, ((Fragment.statement s).run env).1 ≠ .error f)
    (hFault' : ∀ f, ((Fragment.statement t).run env).1 ≠ .error f)
    (hApart : s.Apart t) (hMore : rest ≠ []) :
    (Fragment.program (front ++ s :: t :: rest)).run start =
      (Fragment.program (front ++ t :: s :: rest)).run start := by
  obtain ⟨v, env₁, hFirst⟩ := Statement.exists_result_ok hReturn hFault
  obtain ⟨w, env₂, hSecond⟩ := Statement.exists_result_ok hReturn' hFault'
  simp only [Fragment.run, Fragment.eval, run_eq, Statement.evalAll_append,
    result_bind_ok hReached]
  rw [hApart.evalAll_swap hFirst hSecond hMore]

/-- Both statements read a name that is bound before them, and both bind names in blocks, one of
them in an operand. The program ends with a fault behind them. -/
theorem Fragment.run_program_swap_blocks :
    let front : List Statement := [.binding "a" (.integer 2)]
    let s : Statement := .binding "x" (.binary .add (.identifier "a")
      (.conditional (.boolean true) [.binding "y" (.identifier "a"),
        .expression "y" (.identifier "y")] none))
    let t : Statement := .expression "if" (.conditional
      (.binary .less (.identifier "a") (.integer 3))
      [.binding "z" (.unary .negate (.identifier "a"))] none)
    let rest : List Statement := [.binding "d" (.binary .divide (.identifier "x") (.integer 0))]
    let env := Environment.empty.set "a" (.integer 2)
    ((Statement.evalAll .null front).result .empty = (.ok .null, env) ∧
        s.hasReturn = false ∧ t.hasReturn = false ∧
        (∀ f, ((Fragment.statement s).run env).1 ≠ .error f) ∧
        (∀ f, ((Fragment.statement t).run env).1 ≠ .error f) ∧ s.Apart t ∧ rest ≠ []) ∧
      (Fragment.program (front ++ s :: t :: rest)).run .empty =
        (Fragment.program (front ++ t :: s :: rest)).run .empty ∧
      ((Fragment.program (front ++ t :: s :: rest)).run .empty).1 =
        .error (.divisionByZero 4) ∧
      ((Fragment.program (front ++ t :: s :: rest)).run .empty).2.bindings =
        [("a", .integer 2), ("x", .integer 4), ("y", .integer 2), ("z", .integer (-2))] := by
  intro front s t rest env
  have hReached : (Statement.evalAll .null front).result .empty = (.ok .null, env) := rfl
  have hApart : s.Apart t := by decide
  have hFault : ∀ f, ((Fragment.statement s).run env).1 ≠ .error f := nofun
  have hFault' : ∀ f, ((Fragment.statement t).run env).1 ≠ .error f := nofun
  have hMore : rest ≠ [] := nofun
  exact ⟨⟨hReached, rfl, rfl, hFault, hFault', hApart, hMore⟩,
    run_program_swap hReached rfl rfl hFault hFault' hApart hMore, rfl, rfl⟩

/-- Where one of the two ends with a fault, their order decides what the other one leaves. -/
example :
    let s : Statement := .binding "x" (.integer 1)
    let t : Statement := .binding "y" (.binary .divide (.integer 1) (.integer 0))
    s.Apart t ∧ ((Fragment.program [s, t]).run .empty).2.get? "x" = some (.integer 1) ∧
      ((Fragment.program [t, s]).run .empty).2.get? "x" = none :=
  ⟨by decide, rfl, rfl⟩

end MonkeyLang
