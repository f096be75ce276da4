/-!
# Logs

What a node reports of its work, line by line. A line holds the words that do not depend on the
case.
-/

namespace KeyCustody.Node

/-- How serious a line is. -/
inductive Level where
  | info
  | warn
  | error
  deriving DecidableEq, Repr

/-- The word for a level. -/
def Level.name : Level → String
  | .info => "INFO"
  | .warn => "WARN"
  | .error => "ERROR"

/-- A line of a log. -/
structure LogLine where
  level : Level
  words : String
  deriving DecidableEq, Repr

/-- A log, the oldest line first. -/
abbrev Log := List LogLine

/-- The text of a line. -/
def LogLine.toText (l : LogLine) : String :=
  l.level.name ++ " " ++ l.words

/-- A log of one line of each level. -/
def info (words : String) : Log := [⟨.info, words⟩]
def warn (words : String) : Log := [⟨.warn, words⟩]
def error (words : String) : Log := [⟨.error, words⟩]

end KeyCustody.Node
