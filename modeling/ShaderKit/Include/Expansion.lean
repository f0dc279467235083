import ShaderKit.File.Basic
import ShaderKit.File.Path
import ShaderKit.Include.Directive
import ShaderKit.Text.Line

namespace ShaderKit.Include

/-!
# Include expansion

The expansion of a file is its text with each directive line replaced by the expansion of the file
it names, and an empty line after each file. A directive names a file relative to the directory of
the file that holds it. Directives nest at most as deep as a limit says, which also ends a cycle.

* `Step`      — one step of an expansion: a file is entered, or a directive is followed
* `Expansion` — the steps that were taken, in order, and a value or the first error
* `expand`    — the lines of an expanded file, given how many levels of directives may still open
* `flatten`   — the lines of an expanded file under a limit

An expansion that fails still tells which files it entered before.
-/

/-- One step of an expansion. -/
inductive Step where
  /-- The file of this name is read. -/
  | entered (name : String)
  /-- A directive of `includer` is about to be replaced by the file `name`. -/
  | followed (includer name : String)
  deriving DecidableEq, Repr

/-- The name of the file that a step reads. -/
def Step.entered? : Step → Option String
  | entered name => some name
  | followed .. => none

/-- The steps of an expansion and what came out of it. -/
structure Expansion (α : Type) where
  steps : List Step
  result : Except Error α

namespace Expansion

variable {α β : Type}

/-- What follows a failure does not happen. -/
instance : Monad Expansion where
  pure a := ⟨[], .ok a⟩
  bind first next :=
    match first.result with
    | .error error => ⟨first.steps, .error error⟩
    | .ok a => ⟨first.steps ++ (next a).steps, (next a).result⟩

/-- Takes one step. -/
def take (step : Step) : Expansion Unit := ⟨[step], .ok ()⟩

/-- No step, and a value or an error. -/
def ofExcept (result : Except Error α) : Expansion α := ⟨[], result⟩

/-- The names of the files that were read, in order. -/
def entered (expansion : Expansion α) : List String := expansion.steps.filterMap Step.entered?

/-- The text of expanded lines. -/
def text (expansion : Expansion (List (List Char))) : Except Error String :=
  expansion.result.map fun lines => String.ofList (Text.joinLines lines)

end Expansion

/-- The name by which a file opens what one of its directives names. -/
def resolve (includer : String) (target : List Char) : String :=
  String.ofList (Path.parent includer.toList ++ target)

/-- The expansion of the lines of a file, where `follow` expands what a directive of the file names.
    An empty line ends the file. -/
def expandLines (follow : List Char → Expansion (List (List Char))) :
    List (List Char) → Expansion (List (List Char))
  | [] => pure [[]]
  | line :: rest => do
    let expanded ← match directive? line with
      | none => pure [line]
      | some target => follow target
    return expanded ++ (← expandLines follow rest)

/-- The expansion of a file, where `follow` expands what one of its directives names. -/
def expandFile (follow : List Char → Expansion (List (List Char))) (file : SourceFile) :
    Expansion (List (List Char)) := do
  .take (.entered file.name)
  let text ← .ofExcept file.text
  expandLines follow (Text.lines text.toList)

/-- The expansion of a file below which `levels` levels of directives may open. The limit itself is
    named in the error only. -/
def expand (files : Provider) (limit : Nat) : Nat → SourceFile → Expansion (List (List Char))
  | 0, file => expandFile (fun target =>
      .ofExcept (.error (.includeDepthExceeded (resolve file.name target) limit))) file
  | levels + 1, file => expandFile (fun target => do
      let name := resolve file.name target
      let included ← .ofExcept ((files name).mapError fun _ => .includeNotFound name file.name)
      .take (.followed file.name name)
      expand files limit levels included) file

/-- The expansion of a file whose directives may nest `limit` levels deep. -/
def flatten (files : Provider) (limit : Nat) (file : SourceFile) : Expansion (List (List Char)) :=
  expand files limit limit file

/-- The limit that holds where none is chosen. -/
def defaultLimit : Nat := 64

end ShaderKit.Include
