/-!
# Log entries
-/

namespace Twofold.Log

/-- How important an entry is. A span stands for a whole activity. -/
inductive Level where
  | span
  | trace
  | debug
  | info
  | warn
deriving DecidableEq, Inhabited, Repr

/-- The word for a level. -/
def Level.text : Level → String
  | span => "SPAN"
  | trace => "TRACE"
  | debug => "DEBUG"
  | info => "INFO"
  | warn => "WARN"

/-- A line of the log: what was done, by which part, and the values that go with it. -/
structure Entry where
  level : Level
  target : String
  message : String
  fields : List (String × String)
deriving DecidableEq, Inhabited, Repr

end Twofold.Log
