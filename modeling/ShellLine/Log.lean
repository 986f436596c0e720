/-! # Log records

Both stages write what they did to a log: a debug record on success, a warning on failure.
-/

namespace ShellLine

/-- How much a log record matters. -/
inductive LogLevel where
  | debug
  | warning
deriving DecidableEq, Repr, Inhabited

/-- The name of a level in the log. -/
def LogLevel.label : LogLevel → String
  | .debug => "DEBUG"
  | .warning => "WARNING"

/-- One entry of the log. -/
structure LogRecord where
  logger : String
  level : LogLevel
  message : String
deriving DecidableEq, Repr, Inhabited

end ShellLine
