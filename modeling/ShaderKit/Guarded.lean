import ShaderKit.Action.Basic

namespace ShaderKit

/-!
# Guarded values

A guarded value may only be changed while its guard is held. If what holds the guard unwinds, the
change may be half done: the guard is poisoned from then on, and whoever comes next has to decide
what that means.

* `Guarded`      — a value with the mark of its guard
* `Guarded.hold` — runs an action on the value, under the guard
-/

/-- A value that is changed under a guard only. -/
structure Guarded (α : Type) where
  value : α
  /-- An action that held the guard was unwound. -/
  poisoned : Bool := false
  deriving DecidableEq, Repr

namespace Guarded

variable {α β : Type}

/-- The value, unless the guard is poisoned. -/
def get? (guarded : Guarded α) : Option α :=
  if guarded.poisoned then none else some guarded.value

/-- Replaces the value. -/
def put (guarded : Guarded α) (value : α) : Guarded α := { guarded with value }

/-- The same value under a poisoned guard. -/
def poison (guarded : Guarded α) : Guarded α := { guarded with poisoned := true }

/-- Runs an action on the value, under the guard. -/
def hold (act : Action α β) : Action (Guarded α) β :=
  (act.focus Guarded.value Guarded.put).onUnwind poison

end Guarded

end ShaderKit
