import ShaderKit.Defines.Basic
import ShaderKit.Guarded
import ShaderKit.Resource.Id
import ShaderKit.Text.Quoted

namespace ShaderKit

/-!
# Variations

A variation is one stage of a shader, specialized by a canonical define string. It is compiled when
it is first needed; the outcome, good or bad, stays until the variation is released.

* `CompileState`      — what is known about the program of a variation
* `Variation.compile` — compiles a variation that is pending or released
* `Variation.release` — forgets the program or the failure
* `Variation.observe` — the compile state as an outsider sees it

The compile state is guarded. A compiler that breaks down poisons it, and from then on the variation
counts as released but can neither be compiled nor released.
-/

/-- What is known about the program of a variation. -/
inductive CompileState where
  /-- It was never compiled. -/
  | pending
  /-- There is a program, by its number. -/
  | compiled (program : Nat)
  /-- The compiler rejected it, with this output. -/
  | failed (output : String)
  /-- What was known has been discarded. -/
  | released
  deriving DecidableEq, Repr

namespace CompileState

/-- The program, if there is one. -/
def program? : CompileState → Option Nat
  | compiled program => some program
  | _ => none

/-- The output of the compiler that rejected the variation. -/
def output? : CompileState → Option String
  | failed output => some output
  | _ => none

/-- Whether there is a program. -/
def isCompiled (state : CompileState) : Bool := state.program?.isSome

/-- Whether what was known has been discarded. -/
def isReleased : CompileState → Bool
  | released => true
  | _ => false

/-- Whether the compiler is asked next time. -/
def needsCompile : CompileState → Bool
  | pending | released => true
  | _ => false

/-- The state as a value of its type. -/
def structured : CompileState → String
  | pending => "Pending"
  | compiled _ => "Compiled"
  | failed output => s!"Failed({Text.quoted output})"
  | released => "Released"

end CompileState

/-- One stage of a shader, specialized by a define string. -/
structure Variation where
  /-- The shader that it belongs to. -/
  owner : ResourceId
  /-- The name under which it is shown. -/
  name : String
  stage : Stage
  /-- The define string, in its canonical spelling. -/
  defines : String
  state : Guarded CompileState := { value := .pending }
  deriving DecidableEq, Repr

namespace Variation

/-- The component that speaks in the log. -/
def source : String := "galaxy3d::ShaderVariation"

/-- The request that compiles a variation from the text of its stage. -/
def request (v : Variation) (text : String) (dialect : Dialect) : CompileRequest where
  name := v.name
  stage := v.stage
  source := text
  entryPoint := dialect.entryPoint v.stage
  defines := Defines.names v.defines

/-- What a rejection leaves behind: the output of the compiler, or the message of any other error. -/
def outputOf : Error → String
  | .compileFailed _ output => output
  | error => error.message

/-- The compile state as an outsider sees it. Behind a poisoned guard it is reported as released, with
    a warning each time. -/
def observe : Action Variation CompileState := do
  let v ← get
  match v.state.get? with
  | some state => pure state
  | none =>
    .say .warn source s!"ShaderVariation '{v.name}' lock poisoned, reporting it released"
    pure .released

/-- Runs an action on the compile state, under its guard. -/
def holdState {α : Type} (act : Action CompileState α) : Action Variation α :=
  (Guarded.hold act).focus Variation.state fun v state => { v with state }

/-- Asks the compiler, and keeps the outcome. -/
def compileWith (v : Variation) (request : CompileRequest) : Action CompileState Nat := do
  match ← Action.submit request with
  | .ok program =>
    .say .debug source s!"Compiled {v.stage.label} variation '{v.name}'"
    set (CompileState.compiled program)
    pure program
  | .error error =>
    let output := outputOf error
    set (CompileState.failed output)
    .report source (.compileFailed v.name output)

/-- Compiles a variation from the text of its stage, unless the outcome is known: the number of its
    program. -/
def compile (text : String) (dialect : Dialect) : Action Variation Nat := do
  let v ← get
  match v.state.get? with
  | none => .report source (.invalidResource s!"ShaderVariation '{v.name}' lock poisoned")
  | some (.compiled program) => pure program
  | some (.failed output) => throw (.compileFailed v.name output)
  | some .pending | some .released => holdState (v.compileWith (v.request text dialect))

/-- Forgets the program or the failure. Behind a poisoned guard nothing changes. -/
def release (v : Variation) : Variation :=
  if v.state.poisoned then v else { v with state := v.state.put .released }

/-- The variation as a record, in an observed state. -/
def structured (v : Variation) (state : CompileState) : String :=
  let fields := [s!"name: {Text.quoted v.name}", s!"stage: {v.stage.name}",
    s!"defines: {Text.quoted v.defines}", s!"state: {state.structured}"]
  "ShaderVariation \x7b " ++ ", ".intercalate fields ++ " \x7d"

/-! ### Releasing -/

variable (v : Variation)

@[simp] theorem owner_release : v.release.owner = v.owner := by
  unfold release; split <;> rfl

@[simp] theorem name_release : v.release.name = v.name := by
  unfold release; split <;> rfl

@[simp] theorem stage_release : v.release.stage = v.stage := by
  unfold release; split <;> rfl

@[simp] theorem defines_release : v.release.defines = v.defines := by
  unfold release; split <;> rfl

end Variation

end ShaderKit
