import MonkeyLang.Proofs.Evaluation.Names

/-!
# Renaming

A name stands for a binding and for nothing else. If all names of a tree and of the environment
are changed, different names into different ones, the evaluation comes to the same, and it leaves
the environment that it would have left, with the names changed.

* `Environment.rename` : an environment with other names.
* `Environment.mem_bindings_rename` : what is bound in it.
* `Fragment.run_rename` : evaluating a tree with other names.
-/

namespace MonkeyLang

namespace Environment

/-! ## Environments with other names -/

/-- The environment with the given bindings. Of several bindings of one name the first one
counts. -/
def ofBindings : List (String × Value) → Environment
  | [] => empty
  | (name, value) :: rest => (ofBindings rest).set name value

/-- An environment made of entries has the first value listed for each name. -/
theorem get?_ofBindings (entries : List (String × Value)) (name : String) :
    (ofBindings entries).get? name = entries.lookup name := by
  induction entries with
  | nil => rfl
  | cons entry rest ih =>
    obtain ⟨other, value⟩ := entry
    rw [ofBindings, get?_set, ih, List.lookup_cons]
    by_cases hName : name = other
    · simp [hName]
    · rw [if_neg hName, beq_false_of_ne hName]

/-- The environment with other names, each bound to the value of the name it takes the place
of. -/
def rename (r : String → String) (env : Environment) : Environment :=
  ofBindings (env.bindings.map fun (name, value) => (r name, value))

variable {r : String → String} {env : Environment} {name : String}

theorem lookup_map_rename (hr : Function.Injective r) (entries : List (String × Value)) :
    (entries.map fun (name, value) => (r name, value)).lookup (r name) = entries.lookup name := by
  induction entries with
  | nil => rfl
  | cons entry rest ih =>
    obtain ⟨other, value⟩ := entry
    rw [List.map_cons, List.lookup_cons, List.lookup_cons, ih]
    by_cases hName : name = other
    · simp [hName]
    · have hRenamed : r name ≠ r other := fun hSame => hName (hr hSame)
      rw [beq_false_of_ne hRenamed, beq_false_of_ne hName]

/-- A renamed environment has the value of a name under the new one. -/
theorem get?_rename (hr : Function.Injective r) (env : Environment) (name : String) :
    (env.rename r).get? (r name) = env.get? name := by
  rw [rename, get?_ofBindings]
  exact lookup_map_rename hr env.bindings

/-- In a renamed environment no other names are bound than new ones. -/
theorem exists_of_get?_rename {value : Value} (h : (env.rename r).get? name = some value) :
    ∃ old, r old = name := by
  rw [rename, get?_ofBindings, List.lookup_eq_some_iff] at h
  obtain ⟨front, rest, hEntries, -⟩ := h
  have hMem : (name, value) ∈ env.bindings.map fun (name, value) => (r name, value) := by
    simp [hEntries]
  obtain ⟨⟨old, _⟩, -, hOld⟩ := List.mem_map.mp hMem
  exact ⟨old, congrArg Prod.fst hOld⟩

/-- What is bound in an environment with other names. -/
theorem mem_bindings_rename (hr : Function.Injective r) {value : Value} :
    (name, value) ∈ (env.rename r).bindings ↔
      ∃ old, r old = name ∧ (old, value) ∈ env.bindings := by
  constructor
  · intro h
    have hBound := mem_bindings_iff.mp h
    obtain ⟨old, rfl⟩ := exists_of_get?_rename hBound
    rw [get?_rename hr] at hBound
    exact ⟨old, rfl, mem_bindings_iff.mpr hBound⟩
  · rintro ⟨old, rfl, h⟩
    rw [mem_bindings_iff, get?_rename hr]
    exact mem_bindings_iff.mp h

/-- To bind and to rename can be done in any order. -/
theorem rename_set (hr : Function.Injective r) (env : Environment) (name : String)
    (value : Value) : (env.set name value).rename r = (env.rename r).set (r name) value := by
  refine ext_get? fun other => ?_
  by_cases hOther : ∃ old, r old = other
  · obtain ⟨old, rfl⟩ := hOther
    rw [get?_rename hr, get?_set, get?_set, get?_rename hr]
    simp only [hr.eq_iff]
  · have hNe : other ≠ r name := fun hSame => hOther ⟨name, hSame.symm⟩
    have hFree : ∀ env : Environment, (env.rename r).get? other = none := fun env =>
      Option.eq_none_iff_forall_ne_some.mpr fun _ hBound => hOther (exists_of_get?_rename hBound)
    rw [get?_set_of_ne hNe, hFree, hFree]

/-- The second environment is the first one with other names. -/
def Renamed (r : String → String) (env env' : Environment) : Prop :=
  env' = env.rename r

theorem readAlike_renamed (hr : Function.Injective r) (name : String) :
    ReadAlike (Renamed r) name (r name) := by
  rintro env _ rfl
  exact get?_rename hr env name

theorem bindAlike_renamed (hr : Function.Injective r) (name : String) :
    BindAlike (Renamed r) name (r name) := by
  rintro env _ value rfl
  exact (rename_set hr env name value).symm

end Environment

/-! ## Trees with other names -/

open Environment

/-- Evaluating a tree with other names in an environment with other names comes to the same as
evaluating the tree in the environment, and leaves the same environment with other names. -/
theorem Fragment.run_rename {r : String → String} (hr : Function.Injective r) (t : Fragment)
    (env : Environment) :
    (t.rename r).run (env.rename r) = ((t.run env).1, (t.run env).2.rename r) := by
  have hParallel := t.parallel_rename (fun name _ => readAlike_renamed hr name)
    fun name _ => bindAlike_renamed hr name
  have hBegin : Renamed r env (env.rename r) := rfl
  obtain ⟨hOutcome, hLeft⟩ := hParallel.run hBegin
  exact Prod.ext hOutcome hLeft

/-- Names written backwards. The two names change places, and so do their bindings in the order
of the environment. -/
theorem Fragment.run_rename_backwards :
    let backwards : String → String := fun name => String.ofList name.toList.reverse
    let t : Fragment := .program [.binding "no" (.identifier "on"), .expression "if"
      (.conditional (.binary .less (.identifier "no") (.integer 5))
        [.binding "on" (.binary .divide (.identifier "no") (.integer 0))] none)]
    let env := Environment.empty.set "on" (.integer 3)
    Function.Injective backwards ∧
      (t.rename backwards).run (env.rename backwards) =
        ((t.run env).1, (t.run env).2.rename backwards) ∧
      (t.run env).1 = .error (.divisionByZero 3) ∧
      (t.run env).2.bindings = [("no", .integer 3), ("on", .integer 3)] := by
  intro backwards t env
  have hBackwards : Function.Injective backwards := by
    intro a b hSame
    exact String.toList_inj.mp (List.reverse_inj.mp (String.ofList_inj.mp hSame))
  exact ⟨hBackwards, run_rename hBackwards t env, rfl, rfl⟩

end MonkeyLang
