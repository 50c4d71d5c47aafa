import MonkeyLang.Proofs.Evaluation.Result

/-!
# Exact arithmetic

An expression of integers, unary minus and the four arithmetic operators has an exact value over
the unbounded integers, unless something in it is divided by zero. Evaluating it never wraps: it
yields the exact value if the exact values of all parts are in range, and otherwise it stops at
the first part that is not, in the order in which the parts are evaluated. A part out of range
stops the evaluation even where the value of the whole would be in range again.

* `Expr.exactValue?` : the exact value of an expression.
* `Expr.parts` : the parts of an expression, in the order of evaluation.
* `Expr.Fits`, `Expr.Breaks`, `Expr.BreaksWith` : a part whose value is in range, a part where it
  leaves the range or is undefined, and the fault which that is.
* `Expr.IsArithmetic.settles` : one case for each way to build an expression.
* `Fragment.run_arithmetic` : evaluation is exact or stops at the first part that breaks.
-/

namespace MonkeyLang

/-! ## Exact values -/

namespace BinaryOperator

/-- Whether the result of an operator on integers is an integer. -/
def isArithmetic : BinaryOperator → Bool
  | add | subtract | multiply | divide => true
  | less | greater | equal | notEqual => false

/-- The result of an operator over the unbounded integers, if it is an integer. Division truncates
toward zero, and there is none by zero. -/
def exactValue? : BinaryOperator → Int → Int → Option Int
  | add, l, r => some (l + r)
  | subtract, l, r => some (l - r)
  | multiply, l, r => some (l * r)
  | divide, l, r => if r = 0 then none else some (l.tdiv r)
  | less, _, _ | greater, _, _ | equal, _, _ | notEqual, _, _ => none

/-- Arithmetic has an exact result, except for a division by zero. -/
theorem exactValue?_eq_none_iff {op : BinaryOperator} (hOp : op.isArithmetic = true) {l r : Int} :
    op.exactValue? l r = none ↔ op = divide ∧ r = 0 := by
  cases op with
  | add | subtract | multiply | divide => simp [exactValue?]
  | less | greater | equal | notEqual => cases hOp

/-- On integers an operator yields its exact result, if that is in range. -/
theorem applyIntegers_eq {op : BinaryOperator} (hOp : op.isArithmetic = true) (l r : Integer) :
    op.applyIntegers l r =
      match op.exactValue? l.toInt r.toInt with
      | some n => Value.ofInt op.text n
      | none => .error (.divisionByZero l) := by
  cases op with
  | add | subtract | multiply => rfl
  | divide =>
    simp only [applyIntegers, exactValue?]
    split <;> rfl
  | less | greater | equal | notEqual => cases hOp

end BinaryOperator

namespace Expr

/-- Expressions of integers, unary minus and the four arithmetic operators. -/
inductive IsArithmetic : Expr → Prop
  | integer (n : Integer) : IsArithmetic (.integer n)
  | negate {right : Expr} (hRight : IsArithmetic right) : IsArithmetic (.unary .negate right)
  | binary {op : BinaryOperator} {left right : Expr} (hOp : op.isArithmetic = true)
      (hLeft : IsArithmetic left) (hRight : IsArithmetic right) :
      IsArithmetic (.binary op left right)

/-- The value of an arithmetic expression over the unbounded integers, if it is defined. -/
def exactValue? : Expr → Option Int
  | .integer n => some n.toInt
  | .unary .negate right => right.exactValue?.map fun n => -n
  | .binary op left right => do op.exactValue? (← left.exactValue?) (← right.exactValue?)
  | _ => none

/-- The parts of an arithmetic expression in the order of evaluation, the whole last: the parts of
the left operand, those of the right one, then the operator on them. -/
def parts : Expr → List Expr
  | .unary op right => right.parts ++ [.unary op right]
  | .binary op left right => left.parts ++ (right.parts ++ [.binary op left right])
  | e => [e]

/-- The operands of an expression. -/
def operands : Expr → List Expr
  | .unary _ right => [right]
  | .binary _ left right => [left, right]
  | _ => []

/-- The exact value is defined and in range. -/
def Fits (e : Expr) : Prop :=
  ∃ n ∈ e.exactValue?, Integer.least ≤ n ∧ n ≤ Integer.greatest

instance (e : Expr) : Decidable e.Fits :=
  inferInstanceAs (Decidable (∃ n ∈ e.exactValue?, _))

/-- The exact value is undefined or out of range although the values of the operands are not. -/
def Breaks (e : Expr) : Prop :=
  ¬ e.Fits ∧ ∀ operand ∈ e.operands, operand.Fits

/-- The fault of an expression that breaks: the division of the exact dividend if the divisor is
zero, and otherwise an overflow of the operator. -/
inductive BreaksWith : Expr → Fault → Prop
  | division {left right : Expr} {dividend : Integer}
      (hLeft : left.exactValue? = some dividend.toInt) (hRight : right.exactValue? = some 0) :
      BreaksWith (.binary .divide left right) (.divisionByZero dividend)
  | negation {right : Expr} :
      BreaksWith (.unary .negate right) (.overflow UnaryOperator.negate.text)
  | operation {op : BinaryOperator} {left right : Expr}
      (hDivisor : ¬ (op = .divide ∧ right.exactValue? = some 0)) :
      BreaksWith (.binary op left right) (.overflow op.text)

/-- The first part that breaks does so with the given fault. All parts before it are in range, so
none of them breaks. -/
inductive FirstBreak (e : Expr) (fault : Fault) : Prop
  | intro {before after : List Expr} {part : Expr} (hParts : e.parts = before ++ part :: after)
      (hBefore : ∀ earlier ∈ before, earlier.Fits) (hBreaks : part.Breaks)
      (hFault : part.BreaksWith fault)

section facts

variable {e part : Expr} {n : Integer} {m : Int} {fault : Fault}

theorem fits_of_exactValue? (h : e.exactValue? = some n.toInt) : e.Fits :=
  ⟨n.toInt, h, n.minValue_le_toInt, n.toInt_le⟩

theorem not_fits_of_exactValue?_eq_none (h : e.exactValue? = none) : ¬ e.Fits := by
  rintro ⟨k, hk, -⟩
  rw [h] at hk
  cases hk

theorem not_fits_of_ofInt? (h : e.exactValue? = some m) (hRange : Integer.ofInt? m = none) :
    ¬ e.Fits := by
  rintro ⟨k, hk, hLeast, hGreatest⟩
  obtain rfl := Option.some.inj (h.symm.trans hk)
  rcases Integer.ofInt?_eq_none_iff.mp hRange with hLow | hHigh
  · omega
  · omega

/-- Some part of an expression that breaks does not fit. -/
theorem FirstBreak.exists_not_fits (h : e.FirstBreak fault) : ∃ part ∈ e.parts, ¬ part.Fits := by
  obtain ⟨hParts, -, hBreaks, -⟩ := h
  exact ⟨_, by simp [hParts], hBreaks.1⟩

/-- A part whose first part breaks is evaluated after parts that are in range. -/
theorem FirstBreak.within (h : part.FirstBreak fault) (front : List Expr) {back : List Expr}
    (hParts : e.parts = front ++ (part.parts ++ back)) (hFront : ∀ earlier ∈ front, earlier.Fits) :
    e.FirstBreak fault := by
  cases h with
  | @intro before after broken hPart hBefore hBreaks hFault =>
    have hSplit : e.parts = (front ++ before) ++ broken :: (after ++ back) := by
      simp [hParts, hPart]
    exact .intro hSplit (List.forall_mem_append.mpr ⟨hFront, hBefore⟩) hBreaks hFault

end facts

end Expr

/-! ## Evaluation -/

open Eval

/-- The expression evaluates to its exact value, all parts being in range. -/
structure Expr.Computes (e : Expr) (env : Environment) (n : Integer) : Prop where
  fits : ∀ part ∈ e.parts, part.Fits
  exact : e.exactValue? = some n.toInt
  result : e.eval.result env = (.ok (.integer n), env)

/-- What evaluating an arithmetic expression comes to: its exact value or the fault of the first
part that breaks. -/
inductive Expr.Settles (e : Expr) (env : Environment) : Prop
  | value (n : Integer) (h : e.Computes env n)
  | fault (fault : Fault) (hBreak : e.FirstBreak fault)
      (hResult : e.eval.result env = (.error (.fault fault), env))

namespace Expr.Settles

variable {e left right : Expr} {env : Environment} {op : BinaryOperator} {l r : Integer}

/-- The operands of an operator are in range. So is its exact result, or the operator
overflows. -/
theorem of_ofInt {operator : String} {m : Int} {earlier : List Expr}
    (hParts : e.parts = earlier ++ [e]) (hEarlier : ∀ part ∈ earlier, part.Fits)
    (hOperands : ∀ operand ∈ e.operands, operand.Fits) (hExact : e.exactValue? = some m)
    (hOverflow : e.BreaksWith (.overflow operator))
    (hResult : e.eval.result env = (ofResult (Value.ofInt operator m)).result env) :
    e.Settles env := by
  rw [Value.ofInt] at hResult
  cases hRange : Integer.ofInt? m with
  | some n =>
    rw [hRange] at hResult
    have hValue : e.exactValue? = some n.toInt := by
      rw [hExact, Integer.ofInt?_eq_some_iff.mp hRange]
    have hFits : ∀ part ∈ e.parts, part.Fits := by
      rw [hParts]
      exact List.forall_mem_append.mpr
        ⟨hEarlier, List.forall_mem_singleton.mpr (fits_of_exactValue? hValue)⟩
    exact .value n ⟨hFits, hValue, hResult⟩
  | none =>
    rw [hRange] at hResult
    have hBreaks : e.Breaks := ⟨not_fits_of_ofInt? hExact hRange, hOperands⟩
    exact .fault _ (.intro hParts hEarlier hBreaks hOverflow) hResult

theorem negate (hRight : right.Computes env r) : (Expr.unary .negate right).Settles env := by
  have hOperands : ∀ operand ∈ (Expr.unary .negate right).operands, operand.Fits :=
    List.forall_mem_singleton.mpr (fits_of_exactValue? hRight.exact)
  have hExact : (Expr.unary .negate right).exactValue? = some (-r.toInt) := by
    rw [exactValue?, hRight.exact]
    rfl
  have hResult : (Expr.unary .negate right).eval.result env =
      (ofResult (Value.ofInt UnaryOperator.negate.text (-r.toInt))).result env := by
    rw [Expr.eval, result_bind_ok hRight.result]
    rfl
  exact of_ofInt rfl hRight.fits hOperands hExact .negation hResult

theorem binary (hOp : op.isArithmetic = true) (hLeft : left.Computes env l)
    (hRight : right.Computes env r) : (Expr.binary op left right).Settles env := by
  have hParts : (Expr.binary op left right).parts =
      (left.parts ++ right.parts) ++ [.binary op left right] := by
    simp [parts]
  have hEarlier : ∀ part ∈ left.parts ++ right.parts, part.Fits :=
    List.forall_mem_append.mpr ⟨hLeft.fits, hRight.fits⟩
  have hOperands : ∀ operand ∈ (Expr.binary op left right).operands, operand.Fits := by
    simp [operands, fits_of_exactValue? hLeft.exact, fits_of_exactValue? hRight.exact]
  have hExact : (Expr.binary op left right).exactValue? = op.exactValue? l.toInt r.toInt := by
    simp [exactValue?, hLeft.exact, hRight.exact]
  have hResult : (Expr.binary op left right).eval.result env =
      (ofResult (op.applyIntegers l r)).result env := by
    rw [Expr.eval, result_bind_ok hLeft.result, result_bind_ok hRight.result]
    rfl
  rw [BinaryOperator.applyIntegers_eq hOp] at hResult
  cases hValue : op.exactValue? l.toInt r.toInt with
  | some m =>
    rw [hValue] at hExact hResult
    have hDivisor : ¬ (op = .divide ∧ right.exactValue? = some 0) := by
      rintro ⟨rfl, hZero⟩
      have hZero : r.toInt = 0 := Option.some.inj (hRight.exact.symm.trans hZero)
      simp [BinaryOperator.exactValue?, hZero] at hValue
    exact of_ofInt hParts hEarlier hOperands hExact (.operation hDivisor) hResult
  | none =>
    rw [hValue] at hExact hResult
    obtain ⟨rfl, hZero⟩ := (BinaryOperator.exactValue?_eq_none_iff hOp).mp hValue
    have hBreaks : (Expr.binary .divide left right).Breaks :=
      ⟨not_fits_of_exactValue?_eq_none hExact, hOperands⟩
    have hFault : (Expr.binary .divide left right).BreaksWith (.divisionByZero l) :=
      .division hLeft.exact (hZero ▸ hRight.exact)
    exact .fault _ (.intro hParts hEarlier hBreaks hFault) hResult

end Expr.Settles

/-- Evaluating an arithmetic expression settles it, and it leaves the environment as it is. -/
theorem Expr.IsArithmetic.settles {e : Expr} (he : e.IsArithmetic) (env : Environment) :
    e.Settles env := by
  induction he with
  | integer n =>
    have hFits : ∀ part ∈ (Expr.integer n).parts, part.Fits :=
      List.forall_mem_singleton.mpr (fits_of_exactValue? rfl)
    exact .value n ⟨hFits, rfl, rfl⟩
  | @negate right _ ihRight =>
    cases ihRight with
    | value r hRight => exact .negate hRight
    | fault fault hBreak hResult =>
      exact .fault fault (hBreak.within [] rfl nofun) (result_bind_error hResult _)
  | @binary op left right hOp _ _ ihLeft ihRight =>
    cases ihLeft with
    | fault fault hBreak hResult =>
      exact .fault fault (hBreak.within [] rfl nofun) (result_bind_error hResult _)
    | value l hLeft =>
      cases ihRight with
      | value r hRight => exact .binary hOp hLeft hRight
      | fault fault hBreak hResult =>
        refine .fault fault (hBreak.within left.parts rfl hLeft.fits) ?_
        rw [Expr.eval, result_bind_ok hLeft.result, result_bind_error hResult]

/-- An arithmetic expression evaluates to an integer exactly if all its parts are in range, and
then to its exact value. Otherwise it stops with the fault of the first part that breaks. -/
theorem Fragment.run_arithmetic {e : Expr} (he : e.IsArithmetic) (env : Environment) :
    ((∃ n, ((Fragment.expression e).run env).1 = .ok (.integer n)) ↔
        ∀ part ∈ e.parts, part.Fits) ∧
      (∀ n, ((Fragment.expression e).run env).1 = .ok (.integer n) →
        e.exactValue? = some n.toInt) ∧
      ((¬ ∀ part ∈ e.parts, part.Fits) →
        ∃ fault, e.FirstBreak fault ∧ ((Fragment.expression e).run env).1 = .error fault) ∧
      ((Fragment.expression e).run env).2 = env := by
  simp only [Fragment.run, Fragment.eval, run_eq]
  cases he.settles env with
  | value n h =>
    rw [h.result]
    refine ⟨⟨fun _ => h.fits, fun _ => ⟨n, rfl⟩⟩, ?_, fun hNot => absurd h.fits hNot, rfl⟩
    intro k hk
    cases hk
    exact h.exact
  | fault fault hBreak hResult =>
    obtain ⟨part, hMem, hPart⟩ := hBreak.exists_not_fits
    rw [hResult]
    refine ⟨⟨nofun, fun hFits => absurd (hFits part hMem) hPart⟩, nofun, ?_, rfl⟩
    exact fun _ => ⟨fault, hBreak, rfl⟩

/-- The product is out of range although the quotient of it is not. It is evaluated before the
division by zero, which is not reached. -/
theorem Fragment.run_arithmetic_product :
    let product : Expr := .binary .multiply (.integer 4611686018427387904) (.integer (-4))
    let e : Expr := .binary .subtract (.binary .divide product (.integer (-4)))
      (.binary .divide (.integer 1) (.integer 0))
    e.IsArithmetic ∧ (¬ ∀ part ∈ e.parts, part.Fits) ∧
      (∃ fault, e.FirstBreak fault ∧
        ((Fragment.expression e).run .empty).1 = .error fault) ∧
      ((Fragment.expression e).run .empty).1 = .error (.overflow "*") ∧
      (Expr.binary .divide product (.integer (-4))).Fits := by
  intro product e
  have hArithmetic : e.IsArithmetic :=
    .binary rfl (.binary rfl (.binary rfl (.integer _) (.integer _)) (.integer _))
      (.binary rfl (.integer _) (.integer _))
  have hNot : ¬ ∀ part ∈ e.parts, part.Fits := by decide
  exact ⟨hArithmetic, hNot, (run_arithmetic hArithmetic .empty).2.2.1 hNot, rfl, by decide⟩

/-- The least integer has no opposite, neither by a minus nor by a division. -/
example :
    let least : Expr := .binary .subtract (.integer (-9223372036854775807)) (.integer 1)
    ((Fragment.expression least).run .empty).1 = .ok (.integer (-9223372036854775808)) ∧
      ((Fragment.expression (.unary .negate least)).run .empty).1 = .error (.overflow "-") ∧
      ((Fragment.expression (.binary .divide least (.integer (-1)))).run .empty).1 =
        .error (.overflow "/") :=
  ⟨rfl, rfl, rfl⟩

end MonkeyLang
