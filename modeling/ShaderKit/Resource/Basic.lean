import ShaderKit.Shader.Basic

namespace ShaderKit

/-!
# Resources

A cache holds shaders and documents. A document is a resource of any other type: it is made by a
caller's factory, and what it does is up to the caller. It keeps what its reader makes of a file; besides,
it may write into the books, call the cache back, and break down.

* `Resource`      — a shader or a document
* `Resource.load` — loads a resource from a file
* `Factory`       — makes the resources of one type
-/

/-- A resource of a type that callers bring along. Unless it says otherwise, all that it does is to read
    its content. -/
structure Document where
  typeName : String
  id : ResourceId
  name : String
  content : String := ""
  /-- How the content is read from a file. -/
  parse : SourceFile → Except Error String
  /-- What it releases over a load from a file, by calling back the cache that loads it. -/
  releases : SourceFile → List ResourceId := fun _ => []
  /-- What it writes into the books over a load from a file. -/
  entries : SourceFile → List BooksOp := fun _ => []
  /-- The reason for which a load from a file breaks down, if it does. -/
  breakdown : SourceFile → Option String := fun _ => none
  /-- What it writes into the books at its end. -/
  parting : List BooksOp := []

/-- What a cache holds. -/
inductive Resource where
  | shader (shader : Shader)
  | document (document : Document)

namespace Resource

/-- The name of the resource's type. -/
def typeName : Resource → String
  | shader _ => Shader.typeName
  | document d => d.typeName

/-- The id that the resource was made with. -/
def id : Resource → ResourceId
  | shader s => s.id
  | document d => d.id

/-- The name that the resource was made with. -/
def name : Resource → String
  | shader s => s.name
  | document d => d.name

/-- The memory that the resource takes, in bytes. -/
def memoryUse : Resource → Nat
  | shader s => s.memoryUse
  | document d => d.content.utf8ByteSize

/-- The shader, if the resource is one. -/
def shader? : Resource → Option Shader
  | shader s => some s
  | document _ => none

/-- What the end of a resource does to the books. -/
def retire (resource : Resource) (books : Books) : Books :=
  match resource with
  | shader s => s.retire books
  | document d => books.enter d.parting

/-- Runs an action on the shader that the resource is; with any other resource nothing happens. -/
def onShader {α : Type} (act : Action (Desk Shader) α) : Action (Desk Resource) (Option α) :=
  act.focus? (fun desk => desk.item.shader?.map fun s => { item := s, books := desk.books })
    fun _ desk => { item := shader desk.item, books := desk.books }

/-- What a resource releases over a load from a file. -/
def releases (file : SourceFile) : Resource → List ResourceId
  | shader _ => []
  | document d => d.releases file

/-- Loads the resource from a file, calls to a cache apart. -/
def load (file : SourceFile) : Action (Desk Resource) Unit := do
  match (← get).item with
  | shader _ => discard (onShader (Shader.load file))
  | document d =>
    modify fun desk => { desk with books := desk.books.enter (d.entries file) }
    match d.breakdown file with
    | some reason => .unwind reason
    | none =>
      let content ← .ofExcept (d.parse file)
      modify fun desk => { desk with item := document { d with content } }

end Resource

namespace Desk

/-- Runs an action on an item under its guard, with the books beside it. -/
def hold {ρ α : Type} (act : Action (Desk ρ) α) : Action (Desk (Guarded ρ)) α :=
  (act.focus (fun desk => { item := desk.item.value, books := desk.books })
    fun desk inner => { item := desk.item.put inner.item, books := inner.books }).onUnwind
      fun desk => { desk with item := desk.item.poison }

end Desk

/-- What a factory does: it makes a resource, or it breaks down with a reason. Until then it may have
    written into the books. -/
inductive Delivery where
  | ok (resource : Resource) (entries : List BooksOp := [])
  | error (reason : String) (entries : List BooksOp := [])

/-- Makes the resources of one type from an id, a name and a context. -/
abbrev Factory := ResourceId → String → Context → Delivery

/-- Makes shaders. -/
def Shader.factory : Factory := fun id name context =>
  .ok (.shader (Shader.unloaded id name context))

end ShaderKit
