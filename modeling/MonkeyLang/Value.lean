import MonkeyLang.Integer
import MonkeyLang.Tree.Text

/-!
# Values

What evaluation yields: an integer, a truth value, or null, which stands for the absence of
both. Only `false` and null count as false.
-/

namespace MonkeyLang

/-- The values of the language. -/
inductive Value
  | integer (n : Integer)
  | boolean (b : Bool)
  | null
deriving DecidableEq, Repr, Inhabited

namespace Value

/-- How a value is shown. -/
def text : Value → String
  | integer n => n.text
  | boolean b => boolText b
  | null => "null"

/-- The name of a value's type. -/
def typeName : Value → String
  | integer _ => "INTEGER"
  | boolean _ => "BOOLEAN"
  | null => "NULL"

/-- Whether a value counts as true. Every integer does, zero included. -/
def isTruthy : Value → Bool
  | integer _ => true
  | boolean b => b
  | null => false

end Value

end MonkeyLang
