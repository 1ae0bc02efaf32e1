/-!
# Log levels

A level names how much is logged: a line is shown if its level is at most as verbose as the one that
was chosen.
-/

namespace MessageBroker

/-- How urgent a log line is, the most urgent first. -/
inductive LogLevel where
  | error
  | warn
  | info
  | debug
  | trace
deriving DecidableEq, Repr

namespace LogLevel

/-- The level's name. -/
def name : LogLevel → String
  | .error => "ERROR"
  | .warn => "WARN"
  | .info => "INFO"
  | .debug => "DEBUG"
  | .trace => "TRACE"

/-- The place of a level from the most urgent on. -/
def rank : LogLevel → Nat
  | .error => 0
  | .warn => 1
  | .info => 2
  | .debug => 3
  | .trace => 4

/-- A line of one level is shown when another is chosen. -/
def shownAt (line chosen : LogLevel) : Bool := line.rank ≤ chosen.rank

/-- The level of a name in letters of either case; any other name means `info`. No letter beyond
ASCII has a lower case among the letters of these names. -/
def ofName (name : String) : LogLevel :=
  match name.toLower with
  | "error" => .error
  | "warn" | "warning" => .warn
  | "debug" => .debug
  | "trace" => .trace
  | _ => .info

end LogLevel

end MessageBroker
