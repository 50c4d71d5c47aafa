import MonkeyLang.Tree

/-!
# The canonical text of a tree

Every operator is written with its operands in parentheses, so the text shows how a source was
grouped. Statements follow each other without a separator: a `let` and a `return` end with a
semicolon of their own, an expression statement ends with nothing, and the literal it remembers
is not shown. A conditional is written without parentheses and braces.

* `Statement.textAll_append` : the text of a program is that of its parts in order.
-/

namespace MonkeyLang

/-- The words of the two truth values. -/
def boolText : Bool → String
  | true => "true"
  | false => "false"

mutual

/-- The canonical text of an expression. -/
def Expr.text : Expr → String
  | .identifier name => name
  | .integer value => Integer.text value
  | .boolean value => boolText value
  | .unary op right => "(" ++ op.text ++ right.text ++ ")"
  | .binary op left right => "(" ++ left.text ++ " " ++ op.text ++ " " ++ right.text ++ ")"
  | .conditional test consequence none =>
    "if" ++ test.text ++ " " ++ Statement.textAll consequence
  | .conditional test consequence (some alternative) =>
    "if" ++ test.text ++ " " ++ Statement.textAll consequence ++ "else " ++
      Statement.textAll alternative

/-- The canonical text of a statement. -/
def Statement.text : Statement → String
  | .binding name value => "let " ++ name ++ " = " ++ value.text ++ ";"
  | .returning value => "return " ++ value.text ++ ";"
  | .expression _ value => value.text

/-- The canonical text of a list of statements. -/
def Statement.textAll : List Statement → String
  | [] => ""
  | s :: ss => s.text ++ Statement.textAll ss

end

theorem Statement.textAll_append (ss ts : List Statement) :
    Statement.textAll (ss ++ ts) = Statement.textAll ss ++ Statement.textAll ts := by
  induction ss with
  | nil => simp [Statement.textAll]
  | cons s ss ih => simp [Statement.textAll, ih, String.append_assoc]

/-- The canonical text of any part of a program. -/
def Fragment.text : Fragment → String
  | .program ss | .block ss => Statement.textAll ss
  | .statement s => s.text
  | .expression e => e.text

end MonkeyLang
