/-!
# Log lines

Steps that say something to whoever watches a run return a `Note`: a level and a text.
-/

namespace Lockstep

/-- How important a log line is. -/
inductive Level where
  | debug
  | info
  | warn
  | error
  deriving DecidableEq, Repr

/-- The name of a level. -/
def Level.text : Level → String
  | debug => "DEBUG"
  | info => "INFO"
  | warn => "WARN"
  | error => "ERROR"

/-- A log line. -/
structure Note where
  level : Level
  text : String
  deriving DecidableEq, Repr

end Lockstep
