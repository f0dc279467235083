import ShaderKit.File.Basic
import ShaderKit.Journal

namespace ShaderKit

/-!
# Actions

An action works on a state with the help of collaborators: it may log, open files and ask the
graphics backend. It ends in one of three ways, and keeps what it did to its state and to the
journal in each of them.

* `Ending`        — a value, an error reported to the caller, or a collaborator that broke down
* `Action σ α`    — an action on states `σ`, with values `α`
* `Action.focus`  — an action on a part, as an action on the whole
* `Action.report` — logs an error and ends with it

An error can be caught. A breakdown cannot: it unwinds through everything that is running, which can
only leave its mark on the state (`Action.onUnwind`).
-/

/-- How an action ended. -/
inductive Ending (α : Type) where
  | done (value : α)
  | failed (error : Error)
  /-- A collaborator broke down. -/
  | unwound (reason : String)
  deriving DecidableEq, Repr

/-- Whether a collaborator broke down. -/
def Ending.isUnwound {α : Type} : Ending α → Bool
  | unwound _ => true
  | _ => false

/-- How an action ended, with the state and the journal at its end. -/
structure Outcome (σ α : Type) where
  ending : Ending α
  state : σ
  journal : Journal

/-- The collaborators of an action. -/
structure Services where
  logger : Logger := .keeping
  backend : Backend := {}
  files : Provider := fun name => .error (.fileNotFound name)

/-- An action on states `σ` with values `α`. -/
def Action (σ α : Type) : Type := Services → σ → Journal → Outcome σ α

namespace Action

variable {σ τ α β : Type}

/-- Runs an action. -/
def run (act : Action σ α) (services : Services) (state : σ) (journal : Journal) : Outcome σ α :=
  act services state journal

instance : Monad (Action σ) where
  pure a := fun _ state journal => ⟨.done a, state, journal⟩
  bind act next := fun services state journal =>
    let first := act services state journal
    match first.ending with
    | .done a => next a services first.state first.journal
    | .failed error => ⟨.failed error, first.state, first.journal⟩
    | .unwound reason => ⟨.unwound reason, first.state, first.journal⟩

instance : MonadStateOf σ (Action σ) where
  get := fun _ state journal => ⟨.done state, state, journal⟩
  set state := fun _ _ journal => ⟨.done (), state, journal⟩
  modifyGet f := fun _ state journal => ⟨.done (f state).1, (f state).2, journal⟩

instance : MonadExceptOf Error (Action σ) where
  throw error := fun _ state journal => ⟨.failed error, state, journal⟩
  tryCatch act handler := fun services state journal =>
    let first := act services state journal
    match first.ending with
    | .failed error => handler error services first.state first.journal
    | _ => first

instance : MonadReaderOf Services (Action σ) where
  read := fun services state journal => ⟨.done services, state, journal⟩

/-- Ends because a collaborator broke down. -/
def unwind (reason : String) : Action σ α := fun _ state journal => ⟨.unwound reason, state, journal⟩

/-- The value of a result, or its error. -/
def ofExcept : Except Error α → Action σ α
  | .ok a => pure a
  | .error error => throw error

/-- Changes the journal. -/
def note (f : Journal → Journal) : Action σ Unit := fun _ state journal =>
  ⟨.done (), state, f journal⟩

/-- The journal so far. -/
def journal : Action σ Journal := fun _ state journal => ⟨.done journal, state, journal⟩

/-- Marks the state if the action unwinds. -/
def onUnwind (act : Action σ α) (mark : σ → σ) : Action σ α := fun services state journal =>
  let out := act services state journal
  if out.ending.isUnwound then { out with state := mark out.state } else out

/-- Runs an action on a part of the state. -/
def focus (part : σ → τ) (replace : σ → τ → σ) (act : Action τ α) : Action σ α :=
  fun services state journal =>
    let out := act services (part state) journal
    ⟨out.ending, replace state out.state, out.journal⟩

/-- Runs an action on a part that the state may lack; without it nothing happens. -/
def focus? (part : σ → Option τ) (replace : σ → τ → σ) (act : Action τ α) : Action σ (Option α) := do
  match part (← get) with
  | some t => some <$> focus (fun _ => t) replace act
  | none => pure none

/-! ### Logging -/

/-- Hands an entry to the logger. -/
def log (entry : Log.Entry) : Action σ Unit := do
  match (← read).logger with
  | .recorder trips =>
    note (·.keep entry)
    match trips entry with
    | some reason => unwind reason
    | none => pure ()
  | .console console time => note (·.print (console.print time entry))

/-- Logs a message of a component. -/
def say (severity : Log.Severity) (source message : String) : Action σ Unit :=
  log { severity, source, message }

/-- Logs an error of a component. -/
def complain (source : String) (error : Error) : Action σ Unit :=
  log { severity := .error, source, message := error.message, origin := .library }

/-- Logs an error of a component and ends with it. -/
def report (source : String) (error : Error) : Action σ α := do
  complain source error
  throw error

/-! ### Compiling -/

/-- Passes a request to the compiler: the number of the new program, or why it was rejected. -/
def submit (request : CompileRequest) : Action σ (Except Error Nat) := do
  let reply := (← journal).replyTo ((← read).backend.compile request)
  note (·.addCompilation request reply)
  match reply with
  | .program number => pure (.ok number)
  | .rejected error => pure (.error error)
  | .broken reason => unwind reason

end Action

end ShaderKit
