import MonkeyLang.Proofs.Evaluation.Result

/-!
# Names in evaluations

An evaluation meets its environment in two ways only: it looks a name up where it stands in the
tree, and it binds a name where a `let` does. So two evaluations of a tree run in parallel, with
the same result, as long as their environments agree on the names that are looked up and go on
agreeing when a name is bound. What it means to agree is left open, and the second tree may use
other names.

* `Expr.reads`, `Expr.binds` : the names that are looked up and those that are bound.
* `Expr.rename` : the tree with other names.
* `Eval.Parallel` : two evaluations that run in parallel, with one rule for each way to build an
  evaluation.
* `Fragment.parallel_rename`, `Fragment.parallel` : a tree and the tree with other names, and a
  tree by itself.
* `Fragment.run_preserves` : what holds of the environment that is left.
* `Fragment.get?_run_of_notMem_binds` : names that keep their bindings.
-/

namespace MonkeyLang

/-! ## The names of a tree -/

mutual

/-- The names that stand for a value anywhere in an expression. -/
def Expr.reads : Expr → List String
  | .identifier name => [name]
  | .integer _ | .boolean _ => []
  | .unary _ right => right.reads
  | .binary _ left right => left.reads ++ right.reads
  | .conditional test consequence none => test.reads ++ Statement.readsAll consequence
  | .conditional test consequence (some alternative) =>
    test.reads ++ (Statement.readsAll consequence ++ Statement.readsAll alternative)

/-- The names that stand for a value anywhere in a statement. The name that a `let` binds is none
of them. -/
def Statement.reads : Statement → List String
  | .binding _ value => value.reads
  | .returning value => value.reads
  | .expression _ value => value.reads

/-- The names that stand for a value anywhere in a list of statements. -/
def Statement.readsAll : List Statement → List String
  | [] => []
  | s :: ss => s.reads ++ Statement.readsAll ss

end

mutual

/-- The names that a `let` binds anywhere in an expression. -/
def Expr.binds : Expr → List String
  | .identifier _ | .integer _ | .boolean _ => []
  | .unary _ right => right.binds
  | .binary _ left right => left.binds ++ right.binds
  | .conditional test consequence none => test.binds ++ Statement.bindsAll consequence
  | .conditional test consequence (some alternative) =>
    test.binds ++ (Statement.bindsAll consequence ++ Statement.bindsAll alternative)

/-- The names that a statement binds if it is a `let`, or that one binds anywhere in it. -/
def Statement.binds : Statement → List String
  | .binding name value => name :: value.binds
  | .returning value => value.binds
  | .expression _ value => value.binds

/-- The names that a `let` binds anywhere in a list of statements. -/
def Statement.bindsAll : List Statement → List String
  | [] => []
  | s :: ss => s.binds ++ Statement.bindsAll ss

end

mutual

/-- The expression with other names. -/
def Expr.rename (r : String → String) : Expr → Expr
  | .identifier name => .identifier (r name)
  | .integer n => .integer n
  | .boolean b => .boolean b
  | .unary op right => .unary op (right.rename r)
  | .binary op left right => .binary op (left.rename r) (right.rename r)
  | .conditional test consequence none =>
    .conditional (test.rename r) (Statement.renameAll r consequence) none
  | .conditional test consequence (some alternative) =>
    .conditional (test.rename r) (Statement.renameAll r consequence)
      (some (Statement.renameAll r alternative))

/-- The statement with other names. The text it remembers of its first token is no name. -/
def Statement.rename (r : String → String) : Statement → Statement
  | .binding name value => .binding (r name) (value.rename r)
  | .returning value => .returning (value.rename r)
  | .expression literal value => .expression literal (value.rename r)

/-- The statements with other names. -/
def Statement.renameAll (r : String → String) : List Statement → List Statement
  | [] => []
  | s :: ss => s.rename r :: Statement.renameAll r ss

end

mutual

theorem Expr.rename_id : (e : Expr) → e.rename id = e
  | .identifier _ | .integer _ | .boolean _ => rfl
  | .unary op right => congrArg (Expr.unary op) right.rename_id
  | .binary op left right => by
    rw [Expr.rename, left.rename_id, right.rename_id]
  | .conditional test consequence none => by
    rw [Expr.rename, test.rename_id, Statement.renameAll_id consequence]
  | .conditional test consequence (some alternative) => by
    rw [Expr.rename, test.rename_id, Statement.renameAll_id consequence,
      Statement.renameAll_id alternative]

theorem Statement.rename_id : (s : Statement) → s.rename id = s
  | .binding name value => congrArg (Statement.binding name) value.rename_id
  | .returning value => congrArg Statement.returning value.rename_id
  | .expression literal value => congrArg (Statement.expression literal) value.rename_id

theorem Statement.renameAll_id : (ss : List Statement) → Statement.renameAll id ss = ss
  | [] => rfl
  | s :: ss => by rw [Statement.renameAll, s.rename_id, Statement.renameAll_id ss]

end

namespace Fragment

/-- The names that stand for a value anywhere in a part of a program. -/
def reads : Fragment → List String
  | program ss | block ss => Statement.readsAll ss
  | statement s => s.reads
  | expression e => e.reads

/-- The names that a `let` binds anywhere in a part of a program. -/
def binds : Fragment → List String
  | program ss | block ss => Statement.bindsAll ss
  | statement s => s.binds
  | expression e => e.binds

/-- The part of a program with other names. -/
def rename (r : String → String) : Fragment → Fragment
  | program ss => program (Statement.renameAll r ss)
  | statement s => statement (s.rename r)
  | block ss => block (Statement.renameAll r ss)
  | expression e => expression (e.rename r)

theorem rename_id (t : Fragment) : t.rename id = t := by
  cases t with
  | program ss => exact congrArg program (Statement.renameAll_id ss)
  | statement s => exact congrArg statement s.rename_id
  | block ss => exact congrArg block (Statement.renameAll_id ss)
  | expression e => exact congrArg expression e.rename_id

end Fragment

/-! ## Evaluations in parallel -/

section parallel

variable {R : Environment → Environment → Prop} {α β : Type} {n n' : String}

/-- Environments that are related have the same value for the first name and the second one. -/
def Environment.ReadAlike (R : Environment → Environment → Prop) (n n' : String) : Prop :=
  ∀ env env', R env env' → env'.get? n' = env.get? n

/-- Environments that are related stay so when the two names are bound to the same value. -/
def Environment.BindAlike (R : Environment → Environment → Prop) (n n' : String) : Prop :=
  ∀ env env' value, R env env' → R (env.set n value) (env'.set n' value)

namespace Eval

/-- In related environments both evaluations come to the same and leave related environments. -/
def Parallel (R : Environment → Environment → Prop) (e e' : Eval α) : Prop :=
  ∀ env env', R env env' →
    (e'.result env').1 = (e.result env).1 ∧ R (e.result env).2 (e'.result env').2

namespace Parallel

variable {e e' : Eval α} {f f' : α → Eval β}

theorem exists_result (h : Parallel R e e')
    {env env' env₁ : Environment} {result : Except Stop α} (hRelated : R env env')
    (hResult : e.result env = (result, env₁)) :
    ∃ env₁', e'.result env' = (result, env₁') ∧ R env₁ env₁' := by
  obtain ⟨hSame, hLeft⟩ := h env env' hRelated
  rw [hResult] at hSame hLeft
  exact ⟨(e'.result env').2, Prod.ext hSame rfl, hLeft⟩

theorem pure (a : α) : Parallel R (Pure.pure a) (Pure.pure a) :=
  fun _ _ h => ⟨rfl, h⟩

theorem throw (stop : Stop) : Parallel R (throw stop : Eval α) (throw stop) :=
  fun _ _ h => ⟨rfl, h⟩

theorem lookup (hRead : Environment.ReadAlike R n n') :
    Parallel R (Eval.lookup n) (Eval.lookup n') := by
  intro env env' h
  rw [result_lookup, result_lookup, hRead env env' h]
  exact ⟨rfl, h⟩

theorem assign (hBind : Environment.BindAlike R n n') (value : Value) :
    Parallel R (Eval.assign n value) (Eval.assign n' value) :=
  fun env env' h => ⟨rfl, hBind env env' value h⟩

theorem ofResult (result : Except Fault Value) :
    Parallel R (Eval.ofResult result) (Eval.ofResult result) := by
  cases result with
  | ok value => exact pure value
  | error fault => exact throw (.fault fault)

theorem bind (he : Parallel R e e') (hf : ∀ a, Parallel R (f a) (f' a)) :
    Parallel R (e >>= f) (e' >>= f') := by
  intro env env' h
  rcases hResult : e.result env with ⟨result, env₁⟩
  obtain ⟨env₁', hResult', hLeft⟩ := he.exists_result h hResult
  cases result with
  | ok a =>
    rw [result_bind_ok hResult, result_bind_ok hResult']
    exact hf a env₁ env₁' hLeft
  | error stop =>
    rw [result_bind_error hResult, result_bind_error hResult']
    exact ⟨rfl, hLeft⟩

theorem ite {p : Prop} [Decidable p] {e₁ e₁' : Eval α} (he : Parallel R e e')
    (he₁ : Parallel R e₁ e₁') : Parallel R (if p then e else e₁) (if p then e' else e₁') := by
  split
  · exact he
  · exact he₁

end Parallel

/-- Parallel evaluations have the same outcome and leave related environments. -/
theorem Parallel.run {e e' : Eval Value} (h : Parallel R e e') {env env' : Environment}
    (hRelated : R env env') :
    (e'.run env').1 = (e.run env).1 ∧ R (e.run env).2 (e'.run env').2 := by
  obtain ⟨hSame, hLeft⟩ := h env env' hRelated
  exact ⟨congrArg outcome hSame, hLeft⟩

end Eval

open Eval Environment

variable {r : String → String}

mutual

/-- An expression and the renamed one come to the same, by induction over its form. -/
theorem Expr.parallel_rename : (e : Expr) → (∀ n ∈ e.reads, ReadAlike R n (r n)) →
    (∀ n ∈ e.binds, BindAlike R n (r n)) → Parallel R e.eval (e.rename r).eval
  | .identifier name, hReads, _ => .lookup (hReads name List.mem_cons_self)
  | .integer _, _, _ => .pure _
  | .boolean _, _, _ => .pure _
  | .unary _ right, hReads, hBinds =>
    .bind (right.parallel_rename hReads hBinds) fun _ => .ofResult _
  | .binary _ left right, hReads, hBinds => by
    obtain ⟨hReadsLeft, hReadsRight⟩ := List.forall_mem_append.mp hReads
    obtain ⟨hBindsLeft, hBindsRight⟩ := List.forall_mem_append.mp hBinds
    exact .bind (left.parallel_rename hReadsLeft hBindsLeft) fun _ =>
      .bind (right.parallel_rename hReadsRight hBindsRight) fun _ => .ofResult _
  | .conditional test consequence none, hReads, hBinds => by
    obtain ⟨hReadsTest, hReads⟩ := List.forall_mem_append.mp hReads
    obtain ⟨hBindsTest, hBinds⟩ := List.forall_mem_append.mp hBinds
    exact .bind (test.parallel_rename hReadsTest hBindsTest) fun _ =>
      .ite (Statement.parallel_renameAll consequence hReads hBinds .null) (.pure _)
  | .conditional test consequence (some alternative), hReads, hBinds => by
    obtain ⟨hReadsTest, hReads⟩ := List.forall_mem_append.mp hReads
    obtain ⟨hReadsThen, hReadsElse⟩ := List.forall_mem_append.mp hReads
    obtain ⟨hBindsTest, hBinds⟩ := List.forall_mem_append.mp hBinds
    obtain ⟨hBindsThen, hBindsElse⟩ := List.forall_mem_append.mp hBinds
    exact .bind (test.parallel_rename hReadsTest hBindsTest) fun _ =>
      .ite (Statement.parallel_renameAll consequence hReadsThen hBindsThen .null)
        (Statement.parallel_renameAll alternative hReadsElse hBindsElse .null)

/-- The same of a statement, which may bind a name. -/
theorem Statement.parallel_rename : (s : Statement) → (∀ n ∈ s.reads, ReadAlike R n (r n)) →
    (∀ n ∈ s.binds, BindAlike R n (r n)) → Parallel R s.eval (s.rename r).eval
  | .binding name value, hReads, hBinds => by
    obtain ⟨hName, hBinds⟩ := List.forall_mem_cons.mp hBinds
    exact .bind (value.parallel_rename hReads hBinds) fun v =>
      .bind (.assign hName v) fun _ => .pure _
  | .returning value, hReads, hBinds =>
    .bind (value.parallel_rename hReads hBinds) fun v => .throw (.returned v)
  | .expression _ value, hReads, hBinds => value.parallel_rename hReads hBinds

/-- The same of statements, one after the other. -/
theorem Statement.parallel_renameAll : (ss : List Statement) →
    (∀ n ∈ Statement.readsAll ss, ReadAlike R n (r n)) →
    (∀ n ∈ Statement.bindsAll ss, BindAlike R n (r n)) →
    ∀ last, Parallel R (Statement.evalAll last ss)
      (Statement.evalAll last (Statement.renameAll r ss))
  | [], _, _, last => .pure last
  | s :: ss, hReads, hBinds, last => by
    obtain ⟨hReadsHead, hReadsTail⟩ := List.forall_mem_append.mp hReads
    obtain ⟨hBindsHead, hBindsTail⟩ := List.forall_mem_append.mp hBinds
    exact .bind (s.parallel_rename hReadsHead hBindsHead) fun v =>
      Statement.parallel_renameAll ss hReadsTail hBindsTail v

end

/-- A part of a program and the same part with other names run in parallel. -/
theorem Fragment.parallel_rename (t : Fragment) (hReads : ∀ n ∈ t.reads, ReadAlike R n (r n))
    (hBinds : ∀ n ∈ t.binds, BindAlike R n (r n)) : Parallel R t.eval (t.rename r).eval := by
  cases t with
  | program ss | block ss => exact Statement.parallel_renameAll ss hReads hBinds .null
  | statement s => exact s.parallel_rename hReads hBinds
  | expression e => exact e.parallel_rename hReads hBinds

/-- A part of a program runs in parallel with itself in environments that agree. -/
theorem Fragment.parallel (t : Fragment) (hReads : ∀ n ∈ t.reads, ReadAlike R n n)
    (hBinds : ∀ n ∈ t.binds, BindAlike R n n) : Parallel R t.eval t.eval := by
  have hSame := t.parallel_rename (r := id) hReads hBinds
  rwa [t.rename_id] at hSame

end parallel

/-! ## What bindings cannot change -/

open Eval Environment

/-- One and the same environment, of which something holds. -/
def Environment.SameWith (P : Environment → Prop) (env env' : Environment) : Prop :=
  env' = env ∧ P env

theorem Environment.readAlike_sameWith (P : Environment → Prop) (name : String) :
    ReadAlike (SameWith P) name name := by
  rintro env _ ⟨rfl, -⟩
  rfl

theorem Environment.bindAlike_sameWith {P : Environment → Prop} {name : String}
    (hBind : ∀ env value, P env → P (env.set name value)) :
    BindAlike (SameWith P) name name := by
  rintro env _ value ⟨rfl, h⟩
  exact ⟨rfl, hBind _ value h⟩

/-- What binding a name keeps, for each name that is bound in a part of a program, an evaluation of
that part keeps, however it ends. -/
theorem Fragment.run_preserves {P : Environment → Prop} {t : Fragment}
    (hBinds : ∀ name ∈ t.binds, ∀ env value, P env → P (env.set name value)) {env : Environment}
    (h : P env) : P (t.run env).2 := by
  have hParallel : Parallel (SameWith P) t.eval t.eval :=
    t.parallel (fun name _ => readAlike_sameWith P name) fun name hName =>
      bindAlike_sameWith (hBinds name hName)
  have hBegin : SameWith P env env := ⟨rfl, h⟩
  exact (hParallel.run hBegin).2.2

/-- A name that is bound nowhere in a part of a program keeps its binding, however the evaluation
ends. -/
theorem Fragment.get?_run_of_notMem_binds {t : Fragment} {name : String} (hName : name ∉ t.binds)
    (env : Environment) : (t.run env).2.get? name = env.get? name := by
  refine run_preserves (P := fun env' => env'.get? name = env.get? name) ?_ rfl
  intro other hOther env' value hKept
  have hNe : name ≠ other := fun hSame => hName (hSame ▸ hOther)
  exact (get?_set_of_ne hNe env' value).trans hKept

/-- A statement leaves alone what it does not bind, however it ends. -/
theorem Statement.get?_result_of_notMem_binds {s : Statement} {name : String}
    {env env₁ : Environment} {result : Except Stop Value} (hName : name ∉ s.binds)
    (hResult : s.eval.result env = (result, env₁)) : env₁.get? name = env.get? name := by
  have hKept : ((Fragment.statement s).run env).2.get? name = env.get? name :=
    Fragment.get?_run_of_notMem_binds hName env
  rwa [Fragment.run, Fragment.eval, run_eq, hResult] at hKept

end MonkeyLang
