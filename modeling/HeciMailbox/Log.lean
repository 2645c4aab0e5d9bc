/-! Log lines. -/

set_option autoImplicit false

namespace HeciMailbox

/-- How much a log line matters, from least to most. -/
inductive Severity where
  | trace
  | debug
  | info
  | warn
  deriving DecidableEq, Repr

namespace Severity

def name : Severity → String
  | .trace => "TRACE"
  | .debug => "DEBUG"
  | .info => "INFO"
  | .warn => "WARN"

def rank : Severity → Nat
  | .trace => 0
  | .debug => 1
  | .info => 2
  | .warn => 3

end Severity

structure LogLine where
  severity : Severity
  text : String
  deriving DecidableEq, Repr

namespace LogLine

def render (line : LogLine) : String := line.severity.name ++ " " ++ line.text

def atLeast (threshold : Severity) (lines : List LogLine) : List LogLine :=
  lines.filter fun line => threshold.rank ≤ line.severity.rank

end LogLine

end HeciMailbox
