import ShaderKit.Log.Severity

namespace ShaderKit.Log

/-!
# Log entries

* `Origin` — where an entry was made
* `Entry`  — severity, source and message, with the origin
-/

/-- Where an entry was made. -/
inductive Origin where
  /-- No place is recorded. -/
  | unmarked
  /-- An error that this library reported. -/
  | library
  /-- A line of a file of the caller. -/
  | line (file : String) (number : Nat)
  deriving DecidableEq, Repr

/-- One message in the log. -/
structure Entry where
  severity : Severity
  /-- The component that speaks. -/
  source : String
  message : String
  origin : Origin := .unmarked
  deriving DecidableEq, Repr

end ShaderKit.Log
