/-!
# Tokens

A token is a kind together with the exact text it was written with. Everything that decides
how tokens combine looks at the kind alone; the text supplies names and digits.

* `Token.Kind.name` is how diagnostics speak of a kind.
* `Token.Kind.spelling?` is the one text of a kind that has only one.
* `Token.Kind.ofWord` and `Token.Kind.ofSymbol` read that table backwards.
-/

namespace MonkeyLang

/-- The kinds of token. `comment` is never produced by scanning a text, which skips comments,
but a token list written by hand may contain it. -/
inductive Token.Kind
  | illegal | endOfInput | identifier | integer
  | assign | plus | minus | bang | asterisk | slash | less | greater | equal | notEqual
  | semicolon | leftParen | rightParen | leftBrace | rightBrace
  | letWord | trueWord | falseWord | ifWord | elseWord | returnWord
  | comment
deriving DecidableEq, Repr, Inhabited

/-- A kind and the text it stands for. -/
structure Token where
  kind : Token.Kind
  literal : String
deriving DecidableEq, Repr, Inhabited

namespace Token

/-- What is read past the last token: an end of input with no text. -/
def finish : Token := ⟨.endOfInput, ""⟩

namespace Kind

/-- The name of a kind in diagnostics: a punctuation mark or operator is written as itself, and
every other kind in capitals. -/
def name : Kind → String
  | illegal => "ILLEGAL"
  | endOfInput => "EOF"
  | identifier => "IDENT"
  | integer => "INT"
  | assign => "="
  | plus => "+"
  | minus => "-"
  | bang => "!"
  | asterisk => "*"
  | slash => "/"
  | less => "<"
  | greater => ">"
  | equal => "=="
  | notEqual => "!="
  | semicolon => ";"
  | leftParen => "("
  | rightParen => ")"
  | leftBrace => "\x7b"
  | rightBrace => "\x7d"
  | letWord => "LET"
  | trueWord => "TRUE"
  | falseWord => "FALSE"
  | ifWord => "IF"
  | elseWord => "ELSE"
  | returnWord => "RETURN"
  | comment => "COMMENT"

/-- All kinds, in the order of their declaration. -/
def all : List Kind :=
  [illegal, endOfInput, identifier, integer, assign, plus, minus, bang, asterisk, slash, less,
    greater, equal, notEqual, semicolon, leftParen, rightParen, leftBrace, rightBrace, letWord,
    trueWord, falseWord, ifWord, elseWord, returnWord, comment]

theorem mem_all (k : Kind) : k ∈ all := by
  cases k <;> decide

/-- The kind with a given name. -/
def ofName? (n : String) : Option Kind :=
  all.find? (fun k => k.name = n)

theorem ofName?_name (k : Kind) : ofName? k.name = some k := by
  cases k <;> decide

/-- The kinds of token an expression can start with. -/
def startsOperand : Kind → Bool
  | identifier | integer | trueWord | falseWord | bang | minus | leftParen | ifWord => true
  | _ => false

theorem startsOperand_eq_false {k : Kind} (hIdentifier : k ≠ identifier) (hInteger : k ≠ integer)
    (hTrue : k ≠ trueWord) (hFalse : k ≠ falseWord) (hBang : k ≠ bang) (hMinus : k ≠ minus)
    (hParen : k ≠ leftParen) (hIf : k ≠ ifWord) : k.startsOperand = false := by
  unfold startsOperand
  split <;> simp_all

/-- The text of a keyword, operator or punctuation mark. The other kinds have many texts. -/
def spelling? : Kind → Option String
  | illegal | endOfInput | identifier | integer | comment => none
  | letWord => some "let"
  | trueWord => some "true"
  | falseWord => some "false"
  | ifWord => some "if"
  | elseWord => some "else"
  | returnWord => some "return"
  | k => some k.name

/-- A word is a keyword if it is spelled like one, and an identifier otherwise. -/
def ofWord : String → Kind
  | "let" => letWord
  | "true" => trueWord
  | "false" => falseWord
  | "if" => ifWord
  | "else" => elseWord
  | "return" => returnWord
  | _ => identifier

/-- The kind of a single character that is neither part of a word nor of a number. -/
def ofSymbol : Char → Kind
  | '=' => assign
  | '+' => plus
  | '-' => minus
  | '!' => bang
  | '*' => asterisk
  | '/' => slash
  | '<' => less
  | '>' => greater
  | ';' => semicolon
  | '(' => leftParen
  | ')' => rightParen
  | '\x7b' => leftBrace
  | '\x7d' => rightBrace
  | _ => illegal

end Kind

end Token

/-- The kind of the first token, where a list of tokens ends with the end of input. -/
def firstKind (ts : List Token) : Token.Kind :=
  (ts.headD Token.finish).kind

@[simp] theorem firstKind_nil : firstKind [] = .endOfInput := rfl

@[simp] theorem firstKind_cons (t : Token) (ts : List Token) : firstKind (t :: ts) = t.kind := rfl

end MonkeyLang
