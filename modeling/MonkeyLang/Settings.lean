/-!
# Settings of a session

What a user may choose for a session: the prompt, whether each program's canonical text is
shown before its value, and the file that keeps the lines typed.
-/

namespace MonkeyLang

/-- The settings of a session. -/
structure Settings where
  prompt : String
  showTree : Bool
  /-- The name of the history file in the home directory, if one is kept. -/
  historyFile : Option String
deriving DecidableEq, Repr

namespace Settings

/-- The settings a session starts with if nothing is chosen. -/
def standard : Settings where
  prompt := ">> "
  showTree := false
  historyFile := some ".monkey_history"

instance : Inhabited Settings := ⟨standard⟩

/-- Chooses whether canonical texts are shown. -/
def withTree (s : Settings) (shown : Bool) : Settings :=
  { s with showTree := shown }

/-- Keeps no history. -/
def withoutHistory (s : Settings) : Settings :=
  { s with historyFile := none }

/-- Nothing has been chosen that differs from the standard. -/
def isStandard (s : Settings) : Bool :=
  s = standard

end Settings

end MonkeyLang
