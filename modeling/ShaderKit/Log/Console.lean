import ShaderKit.Log.Entry
import ShaderKit.Text.Replace

namespace ShaderKit.Log

/-!
# The console

* `Entry.line`    — one line: time, label, source, message and, for an entry made at a known line, that line
* `paint`         — a text between a terminal colour and its reset
* `Console`       — which entries are printed, and how
* `Console.print` — what the console writes for an entry
-/

/-- How the origin of an entry ends its line. -/
def Origin.suffix : Origin → String
  | .line file number => s!" ({file}:{number})"
  | .unmarked | .library => ""

/-- The line of an entry, from its parts. -/
def lineOf (time label source : String) (entry : Entry) : String :=
  s!"[{time}] [{label}] [{source}] {entry.message}{entry.origin.suffix}"

/-- The line of an entry without colours. -/
def Entry.line (entry : Entry) (time : String) : String :=
  lineOf time entry.severity.label entry.source entry

/-! ### Colours -/

/-- The terminal sequence that sets a style. -/
def styleSequence (code : String) : String := s!"\x1b[{code}m"

/-- The terminal sequence that ends every style. -/
def resetSequence : String := styleSequence "0"

/-- The text in a style. A reset inside the text would end the style early, so the style is set again
    after each. -/
def paint (code text : String) : String :=
  let set := styleSequence code
  let inner := Text.replaceAll resetSequence.toList (resetSequence ++ set).toList text.toList
  set ++ String.ofList inner ++ resetSequence

/-- The style of a severity's label. -/
def Severity.style : Severity → String
  | .trace => "90"
  | .debug => "36"
  | .info => "32"
  | .warn => "33"
  | .error => "1;31"

/-- The style of the source of an entry. -/
def sourceStyle : String := "94"

/-! ### Printing -/

/-- A console that drops what is less serious than `minimum`. -/
structure Console where
  minimum : Severity := .trace
  coloured : Bool := false
  deriving DecidableEq, Repr

namespace Console

/-- Whether entries of a severity are printed. -/
def accepts (console : Console) (severity : Severity) : Bool :=
  console.minimum ≤ severity

/-- What the console writes for an entry at a time; nothing for one that it drops. -/
def print (console : Console) (time : String) (entry : Entry) : String :=
  if !console.accepts entry.severity then ""
  else if console.coloured then
    lineOf time (paint entry.severity.style entry.severity.label) (paint sourceStyle entry.source)
      entry ++ "\n"
  else entry.line time ++ "\n"

end Console

end ShaderKit.Log
