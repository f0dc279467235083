import ShaderKit.Error
import ShaderKit.Stage.Basic

namespace ShaderKit

/-!
# The graphics backend

The compiler of shader programs is a collaborator of this library: it answers whether it is there,
and what becomes of a request. It may also break down, which unwinds whatever called it.

* `CompileRequest` — what the compiler is given
* `Verdict`        — what it does with a request
* `Backend`        — the two questions one can ask
-/

/-- What the compiler is given for one variation. -/
structure CompileRequest where
  name : String
  stage : Stage
  source : String
  entryPoint : String
  defines : List String
  deriving DecidableEq, Repr

/-- What the compiler does with a request. -/
inductive Verdict where
  /-- It makes a program. -/
  | accepted
  /-- It refuses, for a reason. -/
  | rejected (error : Error)
  /-- It breaks down. -/
  | broken (reason : String)
  deriving DecidableEq, Repr

/-- Whether the graphics subsystem is there. -/
inductive Availability where
  | available
  | unavailable
  /-- The question itself breaks down. -/
  | broken (reason : String)
  deriving DecidableEq, Repr

/-- The compiler of shader programs. -/
structure Backend where
  availability : Availability := .available
  compile : CompileRequest → Verdict := fun _ => .accepted

end ShaderKit
