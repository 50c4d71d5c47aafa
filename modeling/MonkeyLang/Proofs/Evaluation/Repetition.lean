import MonkeyLang.Proofs.Evaluation.InStep

/-!
# Running a program again

Bindings outlive a run, so the second run of a program starts from what the first one left. It
makes no difference for a program that reads only what it has bound before or does not bind at
all, blocks counting as part of the statement they stand in: a `let` in a block may not have been
reached.

Both runs are compared statement by statement. Each name either is what it was when the runs
began or has been bound to the same value in both, and the names that are read from here on have
the same value in both.

* `Statement.SelfContained` : the condition on the program.
* `Environment.InStep.eval_ok`, `Environment.InStep.eval_error` : one statement keeps the runs in
  step.
* `Fragment.run_program_again` : the second run does what the first one did and changes nothing.
-/

namespace MonkeyLang

open Eval Environment

/-! ## Self-contained programs -/

/-- The name that a `let` binds. The ones in its blocks do not count. -/
def Statement.target? : Statement → Option String
  | .binding name _ => some name
  | _ => none

/-- The names that statements bind themselves. The `let`s in their blocks do not count. -/
def Statement.targets (ss : List Statement) : List String :=
  ss.filterMap Statement.target?

/-- Whatever a statement of the program reads, at whatever depth, is either bound nowhere in the
program or bound by a statement of the program that stands before it. -/
def Statement.SelfContained (p : List Statement) : Prop :=
  ∀ i, ∀ _h : i < p.length, ∀ n ∈ p[i].reads,
    n ∉ Statement.bindsAll p ∨ n ∈ Statement.targets (p.take i)

instance (p : List Statement) : Decidable (Statement.SelfContained p) :=
  Nat.decidableBallLT _ _

/-- The name has the same value in every run of the program, once it has come past its first
statements `front`. -/
def Statement.Settled (p front : List Statement) (name : String) : Prop :=
  name ∉ Statement.bindsAll p ∨ name ∈ Statement.targets front

/-- In a program that is self-contained a statement reads settled names only. -/
theorem Statement.SelfContained.settled {p front rest : List Statement} {s : Statement}
    (hp : Statement.SelfContained p) (hSplit : front ++ s :: rest = p) :
    ∀ n ∈ s.reads, Statement.Settled p front n := by
  subst hSplit
  have hReads := hp front.length (by simp)
  simpa [Settled] using hReads

/-! ## One statement in both runs -/

namespace Environment.InStep

variable {P : String → Prop} {start start' env env' env₁ : Environment} {s : Statement}

/-- A statement that comes to its end settles the name that it binds. -/
theorem eval_ok {v : Value} (h : InStep P start start' env env') (hReads : ∀ n ∈ s.reads, P n)
    (hResult : s.eval.result env = (.ok v, env₁)) :
    ∃ env₁', s.eval.result env' = (.ok v, env₁') ∧
      InStep (fun n => P n ∨ s.target? = some n) start start' env₁ env₁' := by
  cases s with
  | binding name value =>
    rcases hValue : value.eval.result env with ⟨result, env₂⟩
    obtain ⟨env₂', hValue', hLeft⟩ := (parallel_expression hReads).exists_result h hValue
    cases result with
    | ok w =>
      rw [Statement.eval, result_bind_ok hValue] at hResult
      rw [Statement.eval, result_bind_ok hValue']
      cases hResult
      exact ⟨_, rfl, (hLeft.set name w).mono fun n hn => hn.imp_right fun hName =>
        (Option.some.inj hName).symm⟩
    | error stop =>
      rw [Statement.eval, result_bind_error hValue] at hResult
      cases hResult
  | returning value | expression literal value =>
    obtain ⟨env₁', hResult', hLeft⟩ := (parallel_statement hReads).exists_result h hResult
    exact ⟨env₁', hResult', hLeft.mono fun n hn => hn.resolve_right nofun⟩

/-- A statement that stops one run stops the other in the same way. -/
theorem eval_error {stop : Stop} (h : InStep P start start' env env')
    (hReads : ∀ n ∈ s.reads, P n) (hResult : s.eval.result env = (.error stop, env₁)) :
    ∃ env₁', s.eval.result env' = (.error stop, env₁') ∧ InStep P start start' env₁ env₁' :=
  (parallel_statement hReads).exists_result h hResult

end Environment.InStep

/-! ## Two runs of a program -/

variable {p : List Statement} {start start' : Environment}

/-- From the same statement of the program on both runs come to the same, and they end in
step. -/
theorem Statement.SelfContained.inStep (hp : Statement.SelfContained p) (rest : List Statement) :
    ∀ front, front ++ rest = p → ∀ env env',
      InStep (Statement.Settled p front) start start' env env' → ∀ last,
      ((Statement.evalAll last rest).result env').1 =
          ((Statement.evalAll last rest).result env).1 ∧
        InStep (fun _ => False) start start' ((Statement.evalAll last rest).result env).2
          ((Statement.evalAll last rest).result env').2 := by
  induction rest with
  | nil =>
    intro front _ env env' h last
    exact ⟨rfl, h.mono fun _ => False.elim⟩
  | cons s rest ih =>
    intro front hSplit env env' h last
    have hReads := hp.settled hSplit
    rcases hResult : s.eval.result env with ⟨result, env₁⟩
    cases result with
    | ok v =>
      obtain ⟨env₁', hResult', hLeft⟩ := h.eval_ok hReads hResult
      have hSettled : InStep (Statement.Settled p (front ++ [s])) start start' env₁ env₁' :=
        hLeft.mono fun n hn => by
          simpa [Statement.Settled, Statement.targets, or_assoc, eq_comm] using hn
      rw [Statement.evalAll, result_bind_ok hResult, result_bind_ok hResult']
      exact ih (front ++ [s]) (by simpa using hSplit) env₁ env₁' hSettled v
    | error stop =>
      obtain ⟨env₁', hResult', hLeft⟩ := h.eval_error hReads hResult
      rw [Statement.evalAll, result_bind_error hResult, result_bind_error hResult']
      exact ⟨rfl, hLeft.mono fun _ => False.elim⟩

/-- The second run of a self-contained program comes to the same as the first one, and it leaves
the environment as it is. -/
theorem Fragment.run_program_again (hp : Statement.SelfContained p) (env : Environment) :
    (Fragment.program p).run ((Fragment.program p).run env).2 = (Fragment.program p).run env := by
  have hBegin : InStep (Statement.Settled p []) env ((Fragment.program p).run env).2 env
      ((Fragment.program p).run env).2 := by
    refine .begin fun name hName => ?_
    have hFree : name ∉ (Fragment.program p).binds := hName.resolve_right List.not_mem_nil
    exact get?_run_of_notMem_binds hFree env
  obtain ⟨hSame, hEnd⟩ := hp.inStep p [] rfl env _ hBegin .null
  refine Prod.ext (congrArg outcome hSame) (ext_get? fun name => ?_)
  rcases hEnd.kept_or_bound name with ⟨-, hKept⟩ | ⟨value, hFirst, hSecond⟩
  · exact hKept
  · exact hSecond.trans hFirst.symm

/-- The first run changes a name that it reads, binds one in a block and ends with a fault. -/
theorem Fragment.run_program_again_fault :
    let p : List Statement := [.binding "a" (.integer 2),
      .expression "if" (.conditional (.binary .less (.identifier "a") (.integer 3))
        [.binding "b" (.binary .multiply (.identifier "a") (.identifier "c"))] none),
      .binding "d" (.binary .divide (.identifier "a") (.integer 0))]
    let env := (Environment.empty.set "a" (.boolean true)).set "c" (.integer 5)
    Statement.SelfContained p ∧
      (Fragment.program p).run ((Fragment.program p).run env).2 = (Fragment.program p).run env ∧
      ((Fragment.program p).run env).1 = .error (.divisionByZero 2) ∧
      ((Fragment.program p).run env).2.bindings =
        [("a", .integer 2), ("b", .integer 10), ("c", .integer 5)] := by
  intro p env
  have hSelfContained : Statement.SelfContained p := by decide
  exact ⟨hSelfContained, run_program_again hSelfContained env, rfl, rfl⟩

/-- A program that reads a name before it binds it goes on changing it. -/
example :
    let p : List Statement := [.binding "x" (.binary .add (.identifier "x") (.integer 1))]
    let env := Environment.empty.set "x" (.integer 1)
    ¬ Statement.SelfContained p ∧ ((Fragment.program p).run env).2.get? "x" = some (.integer 2) ∧
      ((Fragment.program p).run ((Fragment.program p).run env).2).2.get? "x" =
        some (.integer 3) :=
  ⟨by decide, rfl, rfl⟩

end MonkeyLang
