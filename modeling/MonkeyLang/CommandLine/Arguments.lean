/-!
# Command line arguments

Options may stand anywhere, and each at most once. Short options may be joined behind one dash,
long ones are written out. After `--` nothing is an option any more. At most one argument is no
option. The first argument that breaks these rules, or that asks for the version or for help,
decides; what comes after it does not matter.

* `Arguments.read` reads the arguments of a command line.
-/

namespace MonkeyLang.CommandLine

/-- What a command line chooses. -/
structure Arguments where
  /-- The contents name a file. -/
  file : Bool := false
  /-- Canonical texts are shown. -/
  dumpAst : Bool := false
  /-- No history is kept. -/
  noHistory : Bool := false
  /-- A program, or the name of a file that holds one. -/
  contents : Option String := none
deriving DecidableEq, Repr, Inhabited

/-- Why a command line has no arguments to run with. -/
inductive Refusal
  | usage
  | version
  | help
deriving DecidableEq, Repr, Inhabited

/-- The options. -/
inductive Switch
  | file | dumpAst | noHistory | version | help
deriving DecidableEq, Repr, Inhabited

namespace Switch

/-- The option with a long name, which stands behind two dashes. -/
def ofLong? : String → Option Switch
  | "file" => some file
  | "dump-ast" => some dumpAst
  | "no-history" => some noHistory
  | "version" => some version
  | "help" => some help
  | _ => none

/-- The option with a short name, which stands behind one dash. -/
def ofShort? : Char → Option Switch
  | 'f' => some file
  | 'd' => some dumpAst
  | 'V' => some version
  | 'h' => some help
  | _ => none

end Switch

namespace Arguments

/-- Chooses an option. -/
def choose (a : Arguments) : Switch → Except Refusal Arguments
  | .file => if a.file then .error .usage else .ok { a with file := true }
  | .dumpAst => if a.dumpAst then .error .usage else .ok { a with dumpAst := true }
  | .noHistory => if a.noHistory then .error .usage else .ok { a with noHistory := true }
  | .version => .error .version
  | .help => .error .help

/-- Chooses an option if there is one. -/
def choose? (a : Arguments) : Option Switch → Except Refusal Arguments
  | some s => a.choose s
  | none => .error .usage

/-- Takes an argument that is no option. -/
def take (a : Arguments) (contents : String) : Except Refusal Arguments :=
  if a.contents.isSome then .error .usage else .ok { a with contents := some contents }

/-- Takes an argument that may be an option. A single dash is none. -/
def accept (a : Arguments) (argument : String) : Except Refusal Arguments :=
  match argument.toList with
  | '-' :: '-' :: name => a.choose? (Switch.ofLong? (String.ofList name))
  | '-' :: c :: cs => (c :: cs).foldlM (fun a c => a.choose? (Switch.ofShort? c)) a
  | _ => a.take argument

/-- Takes arguments in order. -/
def acceptAll (a : Arguments) : List String → Except Refusal Arguments
  | [] => .ok a
  | "--" :: rest => rest.foldlM take a
  | argument :: rest => do
    let a' ← a.accept argument
    a'.acceptAll rest

/-- Reads the arguments of a command line. -/
def read (args : List String) : Except Refusal Arguments :=
  acceptAll {} args

end Arguments

end MonkeyLang.CommandLine
