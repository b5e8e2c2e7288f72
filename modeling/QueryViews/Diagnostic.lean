/-!
# Diagnostics

A diagnostic is one message of a view generator: how bad it is, a number for the class of
problem, and a text.
-/

namespace QueryViews

/-- How bad what was found is. Only an error keeps views from being used. -/
inductive Severity
  | error
  | warning
  deriving DecidableEq

/-- One message of a view generator. -/
structure Diagnostic where
  severity : Severity
  code : UInt32
  message : String
  deriving DecidableEq

namespace Diagnostic

/-- Whether the diagnostic reports an error. -/
def isError (d : Diagnostic) : Bool :=
  d.severity = .error

/-- Whether the diagnostic reports a warning. -/
def isWarning (d : Diagnostic) : Bool :=
  d.severity = .warning

/-- The severity, the code and the message, on one line. -/
def text (d : Diagnostic) : String :=
  let severity := match d.severity with
    | .error => "error"
    | .warning => "warning"
  s!"{severity} {d.code}: {d.message}"

end Diagnostic

end QueryViews
