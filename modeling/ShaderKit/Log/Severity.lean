namespace ShaderKit.Log

/-!
# Severities

Five severities from `trace` up to `error`, ordered, with the labels of fixed width that stand in a
log line.
-/

/-- How serious a log entry is. -/
inductive Severity where
  /-- Each include and each new variation. -/
  | trace
  /-- The course of loading and reloading. -/
  | debug
  /-- The life of resources. -/
  | info
  /-- Problems that are worked around. -/
  | warn
  /-- Failed loads and compilations. -/
  | error
  deriving DecidableEq, Repr

namespace Severity

/-- All severities, the least serious first. -/
def all : List Severity := [trace, debug, info, warn, error]

/-- The place of a severity in the order. -/
def rank : Severity → Nat
  | trace => 0
  | debug => 1
  | info => 2
  | warn => 3
  | error => 4

instance : LE Severity where
  le a b := a.rank ≤ b.rank

instance (a b : Severity) : Decidable (a ≤ b) := inferInstanceAs (Decidable (a.rank ≤ b.rank))

/-- The label in a log line, five characters wide. -/
def label : Severity → String
  | trace => "TRACE"
  | debug => "DEBUG"
  | info => "INFO "
  | warn => "WARN "
  | error => "ERROR"

/-- The name of a severity. -/
def name : Severity → String
  | trace => "Trace"
  | debug => "Debug"
  | info => "Info"
  | warn => "Warn"
  | error => "Error"

end Severity

end ShaderKit.Log
