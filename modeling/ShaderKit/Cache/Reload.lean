import ShaderKit.Cache.Basic

namespace ShaderKit.Cache

/-!
# Hot reload

* `reload`      — loads a resource again from its file
* `affected`    — the resources that a change of a file concerns: those loaded from it and those that
                  included it
* `fileChanged` — reloads all of them

A reload that fails leaves the resource and its dependencies as they were, so that it is tried again
when one of the files it last depended on changes.
-/

/-- Forgets the dependencies of a resource and gives it others. -/
def replaceDependencies (cache : Cache) (id : ResourceId) (files : List String) : Cache :=
  { cache with books := cache.books.mapDependencies fun deps =>
      (deps.clear id).registerAll id files }

/-- Loads a resource again from its file. -/
def reload (id : ResourceId) : Action Cache Unit := do
  let cache ← get
  let some table := cache.table.get?
    | .report source (.invalidResource "ResourceCache resource table lock poisoned")
  let some entry := table[id]?
    | .report source (.invalidResource s!"Unknown resource id {id.structured}")
  let file ← match (← read).files entry.key.name with
    | .ok file => pure file
    | .error error => .report source error
  let previous := cache.books.dependencies.dependenciesOf id
  modify (·.replaceDependencies id [])
  try
    loadResource id file
  catch error =>
    modify (·.replaceDependencies id previous)
    throw error
  .say .info source s!"Reloaded '{entry.key.name}'"

/-- The resources of the table that were loaded from a file. -/
def loadedFrom (cache : Cache) (file : String) : List ResourceId :=
  match cache.table.get? with
  | some table => (table.filter fun _ entry => entry.key.name == file).keys
  | none => []

/-- The resources that a change of a file concerns, each once. -/
def affected (cache : Cache) (file : String) : List ResourceId :=
  let loaded := cache.loadedFrom file
  loaded ++ (cache.books.dependencies.dependents file).filter (!loaded.contains ·)

/-- Reloads resources one after the other, each with its outcome. -/
def reloadEach (ids : List ResourceId) : Action Cache (List (ResourceId × Except Error Unit)) :=
  ids.mapM fun id => do
    try
      reload id
      pure (id, .ok ())
    catch error => pure (id, .error error)

/-- Reloads the resources that a change of a file concerns, each with its outcome. -/
def fileChanged (file : String) : Action Cache (List (ResourceId × Except Error Unit)) := do
  let ids := (← get).affected file
  unless ids.isEmpty do
    Action.say .debug source s!"'{file}' changed, reloading {ids.length} resource(s)"
  reloadEach ids

end ShaderKit.Cache
