import ShaderKit.Graphics
import ShaderKit.Log.Console

namespace ShaderKit

/-!
# What actions leave behind

* `Logger`  — where log entries go
* `Journal` — the log entries and the compilations of a run, the latest first, and what was printed

Programs made by the compiler are numbered in the order in which they are made.
-/

/-- Where log entries go. -/
inductive Logger where
  /-- They are kept. An entry for which `trips` gives a reason is kept too, and then the logger breaks
      down. -/
  | recorder (trips : Log.Entry → Option String)
  /-- They are printed, under the reading of a clock. -/
  | console (console : Log.Console) (time : String)

/-- A logger that keeps every entry and never breaks down. -/
def Logger.keeping : Logger := .recorder fun _ => none

/-- What the compiler answered. -/
inductive Reply where
  /-- A new program, by its number. -/
  | program (number : Nat)
  | rejected (error : Error)
  | broken (reason : String)
  deriving DecidableEq, Repr

/-- A request with its answer. -/
structure Compilation where
  request : CompileRequest
  reply : Reply
  deriving DecidableEq, Repr

/-- What a run has left behind. -/
structure Journal where
  /-- The log entries that were kept, the latest first. -/
  entries : List Log.Entry := []
  /-- What the console printed. -/
  printed : String := ""
  /-- What the compiler was asked, the latest first. -/
  compilations : List Compilation := []
  deriving DecidableEq, Repr

namespace Journal

/-- Keeps a log entry. -/
def keep (journal : Journal) (entry : Log.Entry) : Journal :=
  { journal with entries := entry :: journal.entries }

/-- Prints a text. -/
def print (journal : Journal) (text : String) : Journal :=
  { journal with printed := journal.printed ++ text }

/-- The number of the next program: the count of those made so far. -/
def nextProgram (journal : Journal) : Nat :=
  journal.compilations.countP fun c => c.reply matches .program _

/-- The answer to a request on which the compiler has given its verdict. -/
def replyTo (journal : Journal) : Verdict → Reply
  | .accepted => .program journal.nextProgram
  | .rejected error => .rejected error
  | .broken reason => .broken reason

/-- Adds a compilation. -/
def addCompilation (journal : Journal) (request : CompileRequest) (reply : Reply) : Journal :=
  { journal with compilations := { request, reply } :: journal.compilations }

end Journal

end ShaderKit
