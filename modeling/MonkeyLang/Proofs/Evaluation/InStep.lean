import MonkeyLang.Proofs.Evaluation.Names

/-!
# Two runs in step

A part of a program is run from two environments that may bind anything, as long as they agree on
the names it reads. Both runs come to the same, and they bind the same names to the same values:
of every name that is not bound to the same value in both, both runs have left the binding as it
was.

* `Environment.InStep` : how the environments of two such runs are related all the way.
* `Environment.InStep.parallel` : a part of a program that reads settled names keeps them in step.
* `Fragment.run_of_reads_agree` : two runs from environments that agree on the names that are
  read.
-/

namespace MonkeyLang

open Eval Environment

/-- Of two runs that began in `start` and `start'` the environments are now `env` and `env'`. The
settled names have the same value in both, and every name is what it was, or it has been bound to
the same value in both. -/
structure Environment.InStep (settled : String → Prop) (start start' env env' : Environment) :
    Prop where
  settled : ∀ name, settled name → env'.get? name = env.get? name
  kept_or_bound : ∀ name, env.get? name = start.get? name ∧ env'.get? name = start'.get? name ∨
    ∃ value, env.get? name = some value ∧ env'.get? name = some value

namespace Environment.InStep

variable {P Q : String → Prop} {start start' env env' : Environment}

theorem begin (h : ∀ name, P name → start'.get? name = start.get? name) :
    InStep P start start' start start' :=
  ⟨h, fun _ => .inl ⟨rfl, rfl⟩⟩

theorem mono (h : InStep P start start' env env') (hWeaker : ∀ name, Q name → P name) :
    InStep Q start start' env env' :=
  ⟨fun name hName => h.settled name (hWeaker name hName), h.kept_or_bound⟩

/-- Binding a name settles it. -/
theorem set (h : InStep P start start' env env') (name : String) (value : Value) :
    InStep (fun other => P other ∨ other = name) start start' (env.set name value)
      (env'.set name value) where
  settled other hOther := by
    by_cases hSame : other = name
    · rw [get?_set, get?_set, if_pos hSame, if_pos hSame]
    · rw [get?_set_of_ne hSame, get?_set_of_ne hSame]
      exact h.settled other (hOther.resolve_right hSame)
  kept_or_bound other := by
    by_cases hSame : other = name
    · refine .inr ⟨value, ?_, ?_⟩
      · rw [get?_set, if_pos hSame]
      · rw [get?_set, if_pos hSame]
    · rw [get?_set_of_ne hSame, get?_set_of_ne hSame]
      exact h.kept_or_bound other

/-- A part of a program that reads settled names only comes to the same in both runs, and leaves
them in step. -/
theorem parallel (t : Fragment) (hReads : ∀ n ∈ t.reads, P n) :
    Parallel (InStep P start start') t.eval t.eval :=
  t.parallel (fun n hn _ _ h => h.settled n (hReads n hn)) fun n _ _ _ value h =>
    (h.set n value).mono fun _ => .inl

theorem parallel_expression {e : Expr} (hReads : ∀ n ∈ e.reads, P n) :
    Parallel (InStep P start start') e.eval e.eval :=
  parallel (.expression e) hReads

/-- A statement that reads settled names only keeps two runs in step. -/
theorem parallel_statement {s : Statement} (hReads : ∀ n ∈ s.reads, P n) :
    Parallel (InStep P start start') s.eval s.eval :=
  parallel (.statement s) hReads

end Environment.InStep

/-- Runs from environments that agree on the names that a part of a program reads come to the same,
and every name keeps its binding in both or ends with the same value in both. -/
theorem Fragment.run_of_reads_agree (t : Fragment) {env env' : Environment}
    (hReads : ∀ n ∈ t.reads, env'.get? n = env.get? n) :
    (t.run env').1 = (t.run env).1 ∧
      ∀ name, (t.run env).2.get? name = env.get? name ∧
          (t.run env').2.get? name = env'.get? name ∨
        ∃ value, (t.run env).2.get? name = some value ∧
          (t.run env').2.get? name = some value := by
  have hBegin : InStep (· ∈ t.reads) env env' env env' := .begin hReads
  have hParallel : Parallel (InStep (· ∈ t.reads) env env') t.eval t.eval :=
    InStep.parallel t fun _ hRead => hRead
  obtain ⟨hSame, hEnd⟩ := hParallel.run hBegin
  exact ⟨hSame, hEnd.kept_or_bound⟩

/-- The environments differ in what is bound at all. The runs end with the same fault; by then both
have bound one name in a block, which only one of the environments had bound. -/
theorem Fragment.run_of_reads_agree_fault :
    let t : Fragment := .program [.expression "if" (.conditional
        (.binary .less (.identifier "a") (.integer 3))
        [.binding "x" (.unary .negate (.identifier "a"))] none),
      .binding "y" (.binary .divide (.identifier "a") (.integer 0))]
    let env := (Environment.empty.set "a" (.integer 2)).set "x" (.boolean true)
    let env' := (Environment.empty.set "a" (.integer 2)).set "z" .null
    (∀ n ∈ t.reads, env'.get? n = env.get? n) ∧
      ((t.run env').1 = (t.run env).1 ∧
        ∀ name, (t.run env).2.get? name = env.get? name ∧
            (t.run env').2.get? name = env'.get? name ∨
          ∃ value, (t.run env).2.get? name = some value ∧
            (t.run env').2.get? name = some value) ∧
      t.run env = (.error (.divisionByZero 2), env.set "x" (.integer (-2))) ∧
      t.run env' = (.error (.divisionByZero 2), env'.set "x" (.integer (-2))) := by
  intro t env env'
  have hReads : ∀ n ∈ t.reads, env'.get? n = env.get? n := by decide
  exact ⟨hReads, t.run_of_reads_agree hReads, rfl, rfl⟩

end MonkeyLang
