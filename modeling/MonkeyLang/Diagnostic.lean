import MonkeyLang.Token

/-!
# Diagnostics

What a parse reports about a malformed source. A diagnostic is a cause; its wording is
`Diagnostic.message`.
-/

namespace MonkeyLang

/-- The ways in which a source can be malformed. -/
inductive Diagnostic
  /-- Another token than the required one comes next. -/
  | expectedToken (expected found : Token.Kind)
  /-- A token that starts no expression stands where an expression starts. -/
  | noOperand (found : Token.Kind)
  /-- The text of an integer token is no integer in range. -/
  | invalidInteger (literal : String)
deriving DecidableEq, Repr, Inhabited

namespace Diagnostic

/-- The wording of a diagnostic. -/
def message : Diagnostic → String
  | expectedToken expected found =>
    "expected next token to be " ++ expected.name ++ ", got " ++ found.name ++ " instead"
  | noOperand found => "no prefix parse function for " ++ found.name ++ " found"
  | invalidInteger literal => "could not parse " ++ literal ++ " as integer"

/-- The wording of several diagnostics, one on each line. -/
def report (ds : List Diagnostic) : String :=
  "\n".intercalate (ds.map message)

end Diagnostic

end MonkeyLang
