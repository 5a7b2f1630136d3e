/-!
# The Log

A notice is one line of the log. Formulas write notices of their own with `print`; a
warning tells that something was given up.
-/

namespace Dashboard

/-- One line of the log. -/
inductive Notice where
  | info (text : String)
  | warning (text : String)
  deriving DecidableEq, Repr

/-- A notice with its level in front. -/
def Notice.line : Notice → String
  | .info text => "INFO " ++ text
  | .warning text => "WARN " ++ text

end Dashboard
