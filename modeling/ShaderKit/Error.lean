import ShaderKit.Text.Quoted

namespace ShaderKit

/-!
# What can go wrong

* `Error`            — one constructor per cause
* `Error.message`    — the sentence that is logged and shown
* `Error.kind`       — the name of the cause
* `Error.structured` — the cause with its details as a record, for diagnosis
-/

open Text (quoted)

/-- Why an operation on shaders, files or resources failed. -/
inductive Error where
  /-- There is no active graphics subsystem to load or compile with. -/
  | graphicsUnavailable
  /-- An included file could not be opened; `includer` holds the directive. -/
  | includeNotFound (name includer : String)
  /-- Following the include `name` would nest deeper than `limit`. -/
  | includeDepthExceeded (name : String) (limit : Nat)
  /-- A subsystem that the operation needs is absent. -/
  | missingSubsystem (name : String)
  /-- No file has this name. -/
  | fileNotFound (name : String)
  /-- The bytes of a file are no text. -/
  | invalidSource (name reason : String)
  /-- The compiler rejected a variation, with its output. -/
  | compileFailed (name output : String)
  /-- No factory makes resources of this type. -/
  | unknownResourceType (name : String)
  /-- A resource cannot be used. -/
  | invalidResource (reason : String)
  deriving DecidableEq, Repr

namespace Error

/-- The sentence that is logged and shown. -/
def message : Error → String
  | graphicsUnavailable => "Graphics subsystem unavailable"
  | includeNotFound name includer =>
    s!"Include file '{name}' not found (included from '{includer}')"
  | includeDepthExceeded name limit => s!"Include depth limit {limit} exceeded while including '{name}'"
  | missingSubsystem name => s!"Missing subsystem: {name}"
  | fileNotFound name => s!"File not found: {name}"
  | invalidSource name reason => s!"Invalid source '{name}': {reason}"
  | compileFailed name output => s!"Failed to compile shader '{name}': {output}"
  | unknownResourceType name => s!"Unknown resource type: {name}"
  | invalidResource reason => s!"Invalid resource: {reason}"

/-- The name of the cause. -/
def kind : Error → String
  | graphicsUnavailable => "GraphicsUnavailable"
  | includeNotFound .. => "IncludeNotFound"
  | includeDepthExceeded .. => "IncludeDepthExceeded"
  | missingSubsystem _ => "MissingSubsystem"
  | fileNotFound _ => "FileNotFound"
  | invalidSource .. => "InvalidSource"
  | compileFailed .. => "ShaderCompileFailed"
  | unknownResourceType _ => "UnknownResourceType"
  | invalidResource _ => "InvalidResource"

/-- The details of an error as they are written after its cause. -/
def details : Error → String
  | graphicsUnavailable => ""
  | includeNotFound name includer => s!" \x7b include: {quoted name}, from: {quoted includer} \x7d"
  | includeDepthExceeded name limit => s!" \x7b include: {quoted name}, depth: {limit} \x7d"
  | invalidSource name reason => s!" \x7b name: {quoted name}, reason: {quoted reason} \x7d"
  | compileFailed name output => s!" \x7b name: {quoted name}, output: {quoted output} \x7d"
  | missingSubsystem text | fileNotFound text | unknownResourceType text | invalidResource text =>
    s!"({quoted text})"

/-- The cause with its details, named where there are several. -/
def structured (e : Error) : String := e.kind ++ e.details

end Error

end ShaderKit
