import MonkeyLang.Operator
import MonkeyLang.Value

/-!
# Operators on values

An operator that has no meaning for its operands yields null. Integer operators are exact: a
result out of range is a fault, and so is a division by zero. Division truncates toward zero.

* `UnaryOperator.apply` and `BinaryOperator.apply` are the operators on values.
-/

namespace MonkeyLang

/-- The faults that stop an evaluation. -/
inductive Fault
  /-- Dividing `left` by zero. -/
  | divisionByZero (left : Integer)
  /-- The result of the named operator is out of range. -/
  | overflow (operator : String)
deriving DecidableEq, Repr, Inhabited

/-- The wording of a fault. -/
def Fault.message : Fault → String
  | divisionByZero left => "division by zero: " ++ left.text ++ " / 0"
  | overflow operator => "integer overflow in '" ++ operator ++ "' operation"

/-- The integer of a given value; the named operator overflows if there is none. -/
def Value.ofInt (operator : String) (n : Int) : Except Fault Value :=
  match Integer.ofInt? n with
  | some i => .ok (.integer i)
  | none => .error (.overflow operator)

namespace UnaryOperator

/-- Applies an operator to its operand. -/
def apply : UnaryOperator → Value → Except Fault Value
  | not, v => .ok (.boolean !v.isTruthy)
  | negate, .integer n => Value.ofInt negate.text (-n.toInt)
  | negate, _ => .ok .null

end UnaryOperator

namespace BinaryOperator

/-- Applies an operator to two integers. -/
def applyIntegers (op : BinaryOperator) (l r : Integer) : Except Fault Value :=
  match op with
  | add => Value.ofInt op.text (l.toInt + r.toInt)
  | subtract => Value.ofInt op.text (l.toInt - r.toInt)
  | multiply => Value.ofInt op.text (l.toInt * r.toInt)
  | divide =>
    if r.toInt = 0 then .error (.divisionByZero l) else Value.ofInt op.text (l.toInt.tdiv r.toInt)
  | less => .ok (.boolean (l.toInt < r.toInt))
  | greater => .ok (.boolean (l.toInt > r.toInt))
  | equal => .ok (.boolean (l = r))
  | notEqual => .ok (.boolean (l ≠ r))

/-- Applies an operator to two truth values, which can only be compared for equality. -/
def applyBooleans : BinaryOperator → Bool → Bool → Value
  | equal, l, r => .boolean (l = r)
  | notEqual, l, r => .boolean (l ≠ r)
  | _, _, _ => .null

/-- Applies an operator to its operands. Operands of different types have no result, and
neither has null. -/
def apply (op : BinaryOperator) : Value → Value → Except Fault Value
  | .integer l, .integer r => op.applyIntegers l r
  | .boolean l, .boolean r => .ok (op.applyBooleans l r)
  | _, _ => .ok .null

end BinaryOperator

end MonkeyLang
