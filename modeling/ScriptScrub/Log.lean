/-!
# Log lines

What the program tells about its work while it works.
-/

namespace ScriptScrub

/-- How much a log line matters. -/
inductive Level where
  | debug
  | info
  | warning
  | error
deriving Repr, DecidableEq, Inhabited

namespace Level

/-- The name of a level. -/
def name : Level → String
  | debug => "DEBUG"
  | info => "INFO"
  | warning => "WARNING"
  | error => "ERROR"

/-- The place of a level among all, counted from zero. -/
def rank : Level → Nat
  | debug => 0
  | info => 1
  | warning => 2
  | error => 3

end Level

/-- One line of a log. -/
structure LogLine where
  level : Level
  text : String
deriving Repr, DecidableEq, Inhabited

end ScriptScrub
