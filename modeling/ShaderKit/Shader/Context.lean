import ShaderKit.Defines.Fingerprint
import ShaderKit.Include.Expansion
import ShaderKit.Resource.DependencyMap
import ShaderKit.Resource.MemoryLedger
import ShaderKit.Stage.Basic

namespace ShaderKit

/-!
# What a shader works with

* `Config`   — how shaders are read
* `Context`  — which subsystems a shader was given, and where its dependencies are kept
* `Books`    — the dependencies and memory figures that shaders keep up to date
* `BooksOp`  — an entry in the books
* `Desk`     — one item with the books beside it, the state of whatever an item does
-/

/-- How shaders are read. -/
structure Config where
  dialect : Dialect := .hlsl
  maxIncludeDepth : Nat := Include.defaultLimit
  deriving DecidableEq, Repr

/-- Where the dependencies of a shader are kept. -/
inductive Keeper where
  /-- In the books, which it shares with others. -/
  | shared
  /-- In a tracker of its own, which nobody else looks at. -/
  | own
  deriving DecidableEq, Repr

/-- The subsystems that a shader was given when it was made. -/
structure Context where
  graphics : Bool := true
  files : Bool := true
  /-- Whether there is a tracker of dependencies. -/
  dependencies : Bool := true
  /-- Whether the memory use is entered into the books. -/
  memory : Bool := true
  config : Config := {}
  /-- Where the tracker of dependencies keeps them, if there is one. -/
  tracker : Keeper := .shared
  /-- The fingerprint by which variations are searched. -/
  fingerprint : String → Fingerprint := Fingerprint.ofText

/-- The dependencies and memory figures that shaders keep up to date. -/
structure Books where
  dependencies : DependencyMap := {}
  memory : MemoryLedger := {}

namespace Books

/-- Changes the dependencies. -/
def mapDependencies (f : DependencyMap → DependencyMap) (books : Books) : Books :=
  { books with dependencies := f books.dependencies }

/-- Changes the memory figures. -/
def mapMemory (f : MemoryLedger → MemoryLedger) (books : Books) : Books :=
  { books with memory := f books.memory }

end Books

namespace Keeper

/-- The dependencies that are kept there. A tracker of a shader's own is only ever written to, so it
    counts as empty. -/
def dependencies : Keeper → Books → DependencyMap
  | shared, books => books.dependencies
  | own, _ => {}

/-- The books after the dependencies that are kept there have become others. -/
def keep : Keeper → DependencyMap → Books → Books
  | shared, dependencies, books => { books with dependencies }
  | own, _, books => books

/-- Changes the dependencies that are kept there. -/
def map (keeper : Keeper) (f : DependencyMap → DependencyMap) (books : Books) : Books :=
  keeper.keep (f (keeper.dependencies books)) books

end Keeper

/-- An entry in the books. -/
inductive BooksOp where
  | register (owner : ResourceId) (file : String)
  | clear (owner : ResourceId)
  | report (owner : ResourceId) (bytes : Nat)
  | remove (owner : ResourceId)

namespace BooksOp

/-- The resource that an entry is about. -/
def owner : BooksOp → ResourceId
  | register owner _ => owner
  | clear owner => owner
  | report owner _ => owner
  | remove owner => owner

/-- The books after an entry. -/
def change : BooksOp → Books → Books
  | register owner file, books => books.mapDependencies (·.register owner file)
  | clear owner, books => books.mapDependencies (·.clear owner)
  | report owner bytes, books => books.mapMemory (·.report owner bytes)
  | remove owner, books => books.mapMemory (·.remove owner)

end BooksOp

/-- The books after some entries, one after the other. -/
def Books.enter (books : Books) (entries : List BooksOp) : Books :=
  entries.foldl (fun books op => op.change books) books

/-- An item with the books beside it. -/
structure Desk (ρ : Type) where
  item : ρ
  books : Books

end ShaderKit
