import ShaderKit.Cache.Reload
import ShaderKit.Cache.Request
import ShaderKit.File.Directory
import ShaderKit.File.Memory

namespace ShaderKit

/-!
# Workspaces

A workspace is where shaders are worked on: a store of files, perhaps a cache over it, and beside
the cache shaders, variation caches and variations that stand alone.

* `FileStore`    — files in memory or in a directory tree
* `ResourceRef`, `VariationRef` — how the contents of a workspace are named
* `onResource`, `onVariation`, `onCache` — actions on one of them

Standalone shaders keep the workspace's own books, unless they were made with the context of the
cache.
-/

/-- Files in memory or in a directory tree. -/
inductive FileStore where
  | memory (store : MemoryStore)
  | directory (tree : DirectoryTree)

namespace FileStore

/-- Opens the file of a logical name. -/
def read : FileStore → Provider
  | memory store => store.read
  | directory tree => tree.read

/-- Whether a logical name leads to a file. -/
def contains : FileStore → String → Bool
  | memory store => store.contains
  | directory tree => tree.contains

/-- Writes a file. -/
def insert (store : FileStore) (name : String) (bytes : ByteArray) : FileStore :=
  match store with
  | memory store => memory (store.insert name bytes)
  | directory tree => directory (tree.insert name bytes)

/-- Removes a file. -/
def erase (store : FileStore) (name : String) : FileStore :=
  match store with
  | memory store => memory (store.erase name)
  | directory tree => directory (tree.erase name)

/-- The number of files, which only a store in memory knows. -/
def size? : FileStore → Option Nat
  | memory store => some store.size
  | directory _ => none

/-- The path that a logical name stands for, which only a directory tree has. -/
def resolve? (name : String) : FileStore → Option String
  | memory _ => none
  | directory _ => some (DirectoryTree.resolve name)

end FileStore

/-- A resource of a workspace. -/
inductive ResourceRef where
  /-- Made by the cache, under this id. -/
  | cached (id : ResourceId)
  /-- Standing alone, by the order in which it was made. -/
  | standalone (index : Nat)
  deriving DecidableEq, Repr

/-- A variation of a workspace. -/
inductive VariationRef where
  /-- Of a stage of a shader, by the order in which it was made. -/
  | ofShader (shader : ResourceRef) (stage : Stage) (index : Nat)
  /-- Of a variation cache that stands alone. -/
  | ofCache (cache index : Nat)
  /-- Standing alone. -/
  | standalone (index : Nat)
  deriving DecidableEq, Repr

/-- A shader that stands alone. -/
structure StandaloneShader where
  resource : Guarded Resource
  /-- It was made with the context of the cache, and keeps the books of the cache. -/
  usesCacheBooks : Bool

/-- A place to work on shaders. -/
structure Workspace where
  files : FileStore := .memory {}
  cache : Option Cache := none
  /-- The books of what stands alone. -/
  books : Books := {}
  shaders : Array StandaloneShader := #[]
  variationCaches : Array VariationCache := #[]
  variations : Array Variation := #[]

namespace Workspace

/-- The books of the cache, or those of what stands alone if there is no cache. -/
def mainBooks (w : Workspace) : Books :=
  match w.cache with
  | some cache => cache.books
  | none => w.books

/-- Replaces the books of the cache, or those of what stands alone if there is no cache. -/
def putMainBooks (w : Workspace) (books : Books) : Workspace :=
  match w.cache with
  | some cache => { w with cache := some { cache with books } }
  | none => { w with books }

/-- Adds a shader that stands alone: its index. -/
def addShader (w : Workspace) (shader : Shader) (usesCacheBooks : Bool) : Workspace × Nat :=
  let resource : Guarded Resource := { value := .shader shader }
  ({ w with shaders := w.shaders.push { resource, usesCacheBooks } }, w.shaders.size)

/-- Adds an empty variation cache that stands alone: its index. -/
def addVariationCache (w : Workspace) (stage : Stage) : Workspace × Nat :=
  ({ w with variationCaches := w.variationCaches.push { stage } }, w.variationCaches.size)

/-- Adds a variation that stands alone: its index. -/
def addVariation (w : Workspace) (v : Variation) : Workspace × Nat :=
  ({ w with variations := w.variations.push v }, w.variations.size)

/-- A resource, under its guard. -/
def resource? (w : Workspace) : ResourceRef → Option (Guarded Resource)
  | .cached id => w.cache.bind (·.resource? id)
  | .standalone i => (w.shaders[i]?).map (·.resource)

/-- Replaces a resource. -/
def putResource (w : Workspace) (ref : ResourceRef) (resource : Guarded Resource) : Workspace :=
  match ref with
  | .cached id => { w with cache := w.cache.map (·.putResource id resource) }
  | .standalone i => { w with shaders := w.shaders.modify i ({ · with resource }) }

/-- Whether a resource keeps the books of the cache. -/
def usesCacheBooks (w : Workspace) : ResourceRef → Bool
  | .cached _ => true
  | .standalone i => (w.shaders[i]?).any (·.usesCacheBooks)

/-- The books that a resource keeps. -/
def booksOf (w : Workspace) (ref : ResourceRef) : Books :=
  if w.usesCacheBooks ref then w.mainBooks else w.books

/-- Replaces the books that a resource keeps. -/
def putBooksOf (w : Workspace) (ref : ResourceRef) (books : Books) : Workspace :=
  if w.usesCacheBooks ref then w.putMainBooks books else { w with books }

/-- The variation that a reference names. -/
def variation? (w : Workspace) : VariationRef → Option Variation
  | .ofShader ref stage i => do
    let shader ← (← w.resource? ref).value.shader?
    (shader.variations stage).variations[i]?
  | .ofCache c i => do (← w.variationCaches[c]?).variations[i]?
  | .standalone i => w.variations[i]?

/-- Replaces the variation that a reference names. A variation has a guard of its own and does not
    wait for that of its shader. -/
def putVariation (w : Workspace) (ref : VariationRef) (v : Variation) : Workspace :=
  match ref with
  | .ofShader ref stage i =>
    match w.resource? ref with
    | some { value := .shader shader, poisoned } =>
      let cache := (shader.variations stage).replace i v
      w.putResource ref { value := .shader (shader.putVariations stage cache), poisoned }
    | _ => w
  | .ofCache c i => { w with variationCaches := w.variationCaches.modify c (·.replace i v) }
  | .standalone i => { w with variations := w.variations.setIfInBounds i v }

/-- Gives up the hold on a resource, which ends the life of one that is held by nothing else. -/
def letGo (w : Workspace) (ref : ResourceRef) : Workspace :=
  match ref with
  | .cached id => { w with cache := w.cache.map (·.letGo id) }
  | .standalone _ =>
    match w.resource? ref with
    | some resource => w.putBooksOf ref (resource.value.retire (w.booksOf ref))
    | none => w

/-! ### Actions -/

variable {α : Type}

/-- Runs an action on the cache, if there is one. -/
def onCache (act : Action Cache α) : Action Workspace (Option α) :=
  act.focus? Workspace.cache fun w cache => { w with cache := some cache }

/-- Runs an action on a resource, under its guard. With a poisoned guard nothing happens. -/
def onResource (ref : ResourceRef) (act : Action (Desk Resource) α) : Action Workspace (Option α) :=
  (Desk.hold act).focus?
    (fun w => do
      let item ← w.resource? ref
      if item.poisoned then none else some { item, books := w.booksOf ref })
    fun w desk => (w.putResource ref desk.item).putBooksOf ref desk.books

/-- Runs an action on a shader, under its guard. -/
def onShader (ref : ResourceRef) (act : Action (Desk Shader) α) : Action Workspace (Option α) := do
  return (← onResource ref (Resource.onShader act)).join

/-- Runs an action on a variation. -/
def onVariation (ref : VariationRef) (act : Action Variation α) : Action Workspace (Option α) :=
  act.focus? (·.variation? ref) (·.putVariation ref)

/-- Runs an action on the dependencies of the cache, or on those of what stands alone if there is no
    cache. -/
def onDependencies (act : Action DependencyMap α) : Action Workspace α :=
  act.focus (·.mainBooks.dependencies) fun w dependencies =>
    w.putMainBooks { w.mainBooks with dependencies }

end Workspace

end ShaderKit
