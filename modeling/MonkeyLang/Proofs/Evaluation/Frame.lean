import MonkeyLang.Proofs.Evaluation.Names

/-!
# What an evaluation leaves as it was

An evaluation changes its environment only by binding names, and it binds no others than those of a
`let` in the tree. It may stop at any point between two bindings, and does not take them back.

* `Environment.Frame` : all that is true of an environment in which names have been bound.
* `Fragment.run_frame` : the frame of an evaluation.
-/

namespace MonkeyLang

namespace Environment

/-- The second environment is the first one except for the bindings of the given names, none of
which is lost. -/
structure Frame (names : List String) (before after : Environment) : Prop where
  kept : ∀ name, name ∉ names → after.get? name = before.get? name
  bound : ∀ name, (before.get? name).isSome = true → (after.get? name).isSome = true

namespace Frame

variable {names : List String} {before after : Environment}

theorem refl (names : List String) (env : Environment) : Frame names env env where
  kept _ _ := rfl
  bound _ h := h

/-- Binding one of the names. -/
theorem set (h : Frame names before after) {name : String} (hName : name ∈ names) (value : Value) :
    Frame names before (after.set name value) where
  kept other hOther := by
    have hNe : other ≠ name := fun hSame => hOther (hSame ▸ hName)
    rw [get?_set_of_ne hNe, h.kept other hOther]
  bound other hBound := by
    rw [get?_set]
    split
    · rfl
    · exact h.bound other hBound

end Frame

end Environment

open Environment

/-- Whatever an evaluation comes to, a value, a `return` or a fault, a name that no `let` in the
part of a program binds has the same binding afterwards as before, and no name has lost its
binding. -/
theorem Fragment.run_frame (t : Fragment) (env : Environment) :
    Frame t.binds env (t.run env).2 :=
  run_preserves (P := Frame t.binds env) (fun _ hName _ value h => h.set hName value)
    (Frame.refl t.binds env)

/-- A fault in the right operand, behind a `let` in a block of the left one and before the name in
front is bound. -/
theorem Fragment.run_frame_fault :
    let t : Fragment := .program [.binding "a" (.binary .add
      (.conditional (.identifier "c") [.binding "b" (.integer 2),
        .expression "b" (.identifier "b")] none)
      (.binary .divide (.identifier "c") (.integer 0)))]
    let env := (Environment.empty.set "c" (.integer 1)).set "a" (.boolean false)
    t.binds = ["a", "b"] ∧ (t.run env).1 = .error (.divisionByZero 1) ∧
      (t.run env).2.bindings =
        [("a", .boolean false), ("b", .integer 2), ("c", .integer 1)] ∧
      (t.run env).2.get? "c" = env.get? "c" ∧ ((t.run env).2.get? "a").isSome = true := by
  intro t env
  have hFrame := run_frame t env
  exact ⟨rfl, rfl, rfl, hFrame.kept "c" (by decide), hFrame.bound "a" rfl⟩

end MonkeyLang
